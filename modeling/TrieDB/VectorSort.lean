import Mathlib.Data.List.Perm.Basic
import Mathlib.Data.List.Pairwise
import TrieDB.Vector

/-!
`vector_qsort`: `quicksort` sorts the segment `[left, right]` of the items in
place and leaves the rest alone. The partition loop keeps the items with
`cmp(item, pivot)` in front, in their order, and a permutation of the others
behind them; the pivot is the last of the front part, since `cmp` holds of it
with itself. The recursion bounds `count - 2` and `count` then pass over it.
-/
namespace TrieDB

variable {α : Type}

/-- One round of the partition loop of `quicksort` at index `i`. -/
def partitionStep (cmp : α → α → Bool) (pivot : α) (acc : List α × Int) (i : Nat) : List α × Int :=
  let (items, count) := acc
  match items[i]? with
  | some item =>
    if cmp item pivot then
      match items[count.toNat]? with
      | some other => ((items.set count.toNat item).set i other, count + 1)
      | none => (items, count + 1)
    else (items, count)
  | none => (items, count)

theorem partition_eq_foldl (cmp : α → α → Bool) (pivot : α) (items : List α) (left right : Nat) :
    quicksort.partition cmp pivot items left right =
      (List.range' left (right + 1 - left)).foldl (partitionStep cmp pivot) (items, left) := rfl

theorem set_length_append (pre rest : List α) (x y : α) :
    (pre ++ x :: rest).set pre.length y = pre ++ y :: rest := by
  simp

section Partition
variable (cmp : α → α → Bool) (pivot : α)

/-- The loop after the items `seen` of the segment: the ones `cmp` puts before
the pivot, in order, then a permutation of the others, then the items not yet
seen; `count` is the first index behind the front part. -/
def PartInv (pre seen rest : List α) (acc : List α × Int) : Prop :=
  ∃ high, acc.1 = pre ++ seen.filter (cmp · pivot) ++ high ++ rest ∧
    high.Perm (seen.filter fun x => !cmp x pivot) ∧
    acc.2 = ((pre.length + (seen.filter (cmp · pivot)).length : Nat) : Int)

theorem partInv_start (pre rest : List α) :
    PartInv cmp pivot pre [] rest (pre ++ rest, (pre.length : Int)) :=
  ⟨[], by simp, by simp, by simp⟩

theorem partitionStep_keep {items : List α} {i : Nat} {x : α} (c : Int)
    (at_i : items[i]? = some x) (back : cmp x pivot = false) :
    partitionStep cmp pivot (items, c) i = (items, c) := by
  simp [partitionStep, at_i, back]

theorem partitionStep_swap {items : List α} {i : Nat} {x y : α} {c : Int}
    (at_i : items[i]? = some x) (front : cmp x pivot = true) (at_c : items[c.toNat]? = some y) :
    partitionStep cmp pivot (items, c) i = ((items.set c.toNat x).set i y, c + 1) := by
  simp [partitionStep, at_i, front, at_c]

theorem partInv_step {pre seen rest : List α} {x : α} {acc : List α × Int}
    (inv : PartInv cmp pivot pre seen (x :: rest) acc) :
    PartInv cmp pivot pre (seen ++ [x]) rest (partitionStep cmp pivot acc (pre.length + seen.length)) := by
  obtain ⟨high, items, perm, count⟩ := inv
  obtain ⟨list, c⟩ := acc
  simp only at items count
  subst items count
  set low := seen.filter (cmp · pivot)
  have sizes : low.length + high.length = seen.length := by
    rw [perm.length_eq]
    exact (List.length_eq_length_filter_add _).symm
  have at_x : (pre ++ low ++ high ++ x :: rest)[pre.length + seen.length]? = some x := by
    rw [List.getElem?_append_right (by simp; omega)]
    simp [← sizes]
  cases front : cmp x pivot
  case false =>
    rw [partitionStep_keep cmp pivot _ at_x front]
    refine ⟨high ++ [x], by simp [low, front], ?_, by simp [low, front]⟩
    simpa [front] using perm.append_right [x]
  case true =>
    have count : ((((pre ++ low).length : Nat) : Int)).toNat = (pre ++ low).length := rfl
    cases high with
    | nil =>
      have index : pre.length + seen.length = (pre ++ low).length := by
        simp at sizes ⊢; omega
      have shape : pre ++ low ++ [] ++ x :: rest = (pre ++ low) ++ x :: rest := by simp
      rw [index, shape] at at_x ⊢
      rw [← List.length_append, partitionStep_swap cmp pivot at_x front (by rw [count]; exact at_x),
        count, set_length_append, set_length_append]
      refine ⟨[], by simp [low, front], by simpa [front] using perm, by simp [low, front]; omega⟩
    | cons h hs =>
      have index : pre.length + seen.length = (pre ++ low ++ x :: hs).length := by
        simp at sizes ⊢; omega
      have shape : pre ++ low ++ h :: hs ++ x :: rest = (pre ++ low) ++ h :: (hs ++ x :: rest) := by
        simp
      have swapped : (pre ++ low) ++ x :: (hs ++ x :: rest) = (pre ++ low ++ x :: hs) ++ x :: rest := by
        simp
      rw [index, shape] at at_x ⊢
      have at_c : ((pre ++ low) ++ h :: (hs ++ x :: rest))[(((pre ++ low).length : Nat) : Int).toNat]? =
          some h := by
        rw [count]; simp
      rw [← List.length_append, partitionStep_swap cmp pivot at_x front at_c,
        count, set_length_append, swapped, set_length_append]
      refine ⟨hs ++ [h], by simp [low, front], ?_, by simp [low, front]; omega⟩
      simpa [front] using (List.perm_append_singleton h hs).trans perm

theorem partInv_run (pre rest : List α) :
    ∀ (xs seen : List α) (acc : List α × Int), PartInv cmp pivot pre seen (xs ++ rest) acc →
      PartInv cmp pivot pre (seen ++ xs) rest
        ((List.range' (pre.length + seen.length) xs.length).foldl (partitionStep cmp pivot) acc)
  | [], seen, acc, inv => by simpa using inv
  | x :: xs, seen, acc, inv => by
    have run := partInv_run pre rest xs (seen ++ [x]) _ (partInv_step cmp pivot inv)
    rw [List.length_append, List.length_singleton, ← Nat.add_assoc, List.append_assoc,
      List.singleton_append] at run
    rwa [List.length_cons, List.range'_succ, List.foldl_cons]

theorem partInv_partition (pre seg post : List α) (nonempty : seg ≠ []) :
    PartInv cmp pivot pre seg post
      (quicksort.partition cmp pivot (pre ++ seg ++ post) pre.length (pre.length + seg.length - 1)) := by
  have width : pre.length + seg.length - 1 + 1 - pre.length = seg.length := by
    have := List.length_pos_iff.mpr nonempty
    omega
  have run := partInv_run cmp pivot pre post seg [] _ (partInv_start cmp pivot pre (seg ++ post))
  rw [partition_eq_foldl, width, List.append_assoc]
  simpa using run

end Partition

/-- `cmp` is reflexive, transitive and total on the values `D` holds of. -/
structure TotalPreorderOn (cmp : α → α → Bool) (D : α → Prop) : Prop where
  refl : ∀ a, D a → cmp a a = true
  trans : ∀ a b c, D a → D b → D c → cmp a b = true → cmp b c = true → cmp a c = true
  total : ∀ a b, D a → D b → cmp a b = true ∨ cmp b a = true

section Quicksort
variable {cmp : α → α → Bool} {D : α → Prop}

theorem perm_around_pivot {init low high : List α} (p : α → Bool) (pivot : α)
    (low_perm : low.Perm (init.filter p)) (high_perm : high.Perm (init.filter fun x => !p x)) :
    (low ++ pivot :: high).Perm (init ++ [pivot]) :=
  calc (low ++ pivot :: high).Perm (init.filter p ++ pivot :: init.filter fun x => !p x) :=
        low_perm.append (high_perm.cons pivot)
    List.Perm _ (pivot :: (init.filter p ++ init.filter fun x => !p x)) := List.perm_middle
    List.Perm _ (pivot :: init) := (List.filter_append_perm p init).cons pivot
    List.Perm _ (init ++ [pivot]) := (List.perm_append_singleton pivot init).symm

theorem pairwise_around_pivot (order : TotalPreorderOn cmp D) {low high : List α} {pivot : α}
    (dom_low : ∀ a ∈ low, D a) (dom_high : ∀ b ∈ high, D b) (dom_pivot : D pivot)
    (sorted_low : low.Pairwise (cmp · · = true)) (sorted_high : high.Pairwise (cmp · · = true))
    (below : ∀ a ∈ low, cmp a pivot = true) (not_below : ∀ b ∈ high, cmp b pivot = false) :
    (low ++ pivot :: high).Pairwise (cmp · · = true) := by
  have above : ∀ b ∈ high, cmp pivot b = true := fun b mem => by
    simpa [not_below b mem] using order.total b pivot (dom_high b mem) dom_pivot
  refine List.pairwise_append.mpr ⟨sorted_low, List.pairwise_cons.mpr ⟨above, sorted_high⟩, ?_⟩
  intro a mem_a b mem_b
  rcases List.mem_cons.mp mem_b with rfl | mem_b
  · exact below a mem_a
  · exact order.trans a pivot b (dom_low a mem_a) dom_pivot (dom_high b mem_b)
      (below a mem_a) (above b mem_b)

theorem pairwise_of_length_le_one (R : α → α → Prop) :
    ∀ {l : List α}, l.length ≤ 1 → l.Pairwise R
  | [], _ => List.Pairwise.nil
  | [_], _ => List.pairwise_singleton _ _

theorem quicksort_short (fuel : Nat) (items : List α) {left right : Int} (short : left ≥ right) :
    quicksort cmp (fuel + 1) items left right = some items := by
  simp [quicksort, short]

theorem partition_around_pivot (order : TotalPreorderOn cmp D) (pre init post : List α) {pivot : α}
    (dom_pivot : D pivot) :
    ∃ high, quicksort.partition cmp pivot (pre ++ (init ++ [pivot]) ++ post) pre.length
        (pre.length + (init ++ [pivot]).length - 1) =
        (pre ++ (init.filter (cmp · pivot) ++ [pivot]) ++ high ++ post,
          ((pre.length + (init.filter (cmp · pivot) ++ [pivot]).length : Nat) : Int)) ∧
      high.Perm (init.filter fun x => !cmp x pivot) := by
  obtain ⟨high, items, high_perm, count⟩ := partInv_partition cmp pivot pre (init ++ [pivot]) post (by simp)
  have front : (init ++ [pivot]).filter (cmp · pivot) = init.filter (cmp · pivot) ++ [pivot] := by
    simp [order.refl pivot dom_pivot]
  have back : ((init ++ [pivot]).filter fun x => !cmp x pivot) = init.filter fun x => !cmp x pivot := by
    simp [order.refl pivot dom_pivot]
  rw [front] at items count
  rw [back] at high_perm
  exact ⟨high, Prod.ext items count, high_perm⟩

theorem quicksort_segment (order : TotalPreorderOn cmp D) :
    ∀ (fuel : Nat) (pre seg post : List α), max seg.length 1 ≤ fuel → (∀ a ∈ seg, D a) →
      ∃ sorted, quicksort cmp fuel (pre ++ seg ++ post) pre.length
          (((pre.length + seg.length : Nat) : Int) - 1) = some (pre ++ sorted ++ post) ∧
        sorted.Perm seg ∧ sorted.Pairwise (cmp · · = true)
  | 0, _, _, _, fuel, _ => by omega
  | fuel + 1, pre, seg, post, enough, dom => by
    by_cases short : seg.length ≤ 1
    · exact ⟨seg, quicksort_short fuel _ (by omega), List.Perm.refl seg, pairwise_of_length_le_one _ short⟩
    obtain ⟨init, pivot, rfl⟩ : ∃ init pivot, seg = init ++ [pivot] :=
      (List.eq_nil_or_concat' seg).resolve_left (by rintro rfl; simp at short)
    have right_at : ((((pre.length + (init ++ [pivot]).length : Nat) : Int) - 1)).toNat =
        pre.length + (init ++ [pivot]).length - 1 := by omega
    have pivot_at : (pre ++ (init ++ [pivot]) ++ post)[pre.length + (init ++ [pivot]).length - 1]? =
        some pivot := by
      rw [show pre.length + (init ++ [pivot]).length - 1 = (pre ++ init).length by simp]
      simp
    have dom_pivot : D pivot := dom pivot (by simp)
    obtain ⟨high, partitioned, high_perm⟩ := partition_around_pivot order pre init post dom_pivot
    rw [quicksort, if_neg (by omega), right_at, Int.toNat_natCast, pivot_at, Option.bind_eq_bind,
      Option.bind_some, partitioned]
    set low := init.filter (cmp · pivot)
    have dom_low : ∀ a ∈ low, D a := fun a mem => dom a (by simp [List.mem_of_mem_filter mem])
    have dom_high : ∀ b ∈ high, D b := fun b mem =>
      dom b (by simp [List.mem_of_mem_filter (high_perm.mem_iff.mp mem)])
    have sizes : low.length + high.length = init.length := by
      rw [high_perm.length_eq]
      exact (List.length_eq_length_filter_add _).symm
    have wide : 1 ≤ init.length := by
      simp only [List.length_append, List.length_singleton] at short; omega
    have within : init.length ≤ fuel := by
      simp only [List.length_append, List.length_singleton] at enough; omega
    have first_right : ((pre.length + (low ++ [pivot]).length : Nat) : Int) - 2 =
        ((pre.length + low.length : Nat) : Int) - 1 := by
      simp; omega
    have first_items : pre ++ (low ++ [pivot]) ++ high ++ post = pre ++ low ++ (pivot :: high ++ post) := by
      simp
    obtain ⟨sorted1, first, perm1, sorted1_ok⟩ :=
      quicksort_segment order fuel pre low (pivot :: high ++ post) (by omega) dom_low
    dsimp only
    rw [first_right, first_items, first, Option.bind_eq_bind, Option.bind_some]
    have second_items : pre ++ sorted1 ++ (pivot :: high ++ post) = (pre ++ sorted1 ++ [pivot]) ++ high ++ post := by
      simp
    have second_left : ((pre.length + (low ++ [pivot]).length : Nat) : Int) = (pre ++ sorted1 ++ [pivot]).length := by
      simp [perm1.length_eq]
    have second_right : ((pre.length + (init ++ [pivot]).length : Nat) : Int) - 1 =
        (((pre ++ sorted1 ++ [pivot]).length + high.length : Nat) : Int) - 1 := by
      simp [perm1.length_eq]; omega
    obtain ⟨sorted2, second, perm2, sorted2_ok⟩ :=
      quicksort_segment order fuel (pre ++ sorted1 ++ [pivot]) high post
        (by omega) dom_high
    rw [second_items, second_left, second_right, second]
    have mem_low : ∀ a ∈ sorted1, a ∈ low := fun a mem => perm1.mem_iff.mp mem
    have mem_high : ∀ b ∈ sorted2, b ∈ high := fun b mem => perm2.mem_iff.mp mem
    refine ⟨sorted1 ++ pivot :: sorted2, by simp, perm_around_pivot _ pivot perm1 (perm2.trans high_perm),
      pairwise_around_pivot order (fun a mem => dom_low a (mem_low a mem))
        (fun b mem => dom_high b (mem_high b mem)) dom_pivot sorted1_ok sorted2_ok ?_ ?_⟩
    · intro a mem
      exact (List.mem_filter.mp (mem_low a mem)).2
    · intro b mem
      simpa using (List.mem_filter.mp (high_perm.mem_iff.mp (mem_high b mem))).2

theorem vectorQsort_sorted_perm (v : Vector α) (order : TotalPreorderOn cmp (· ∈ v.items)) :
    ∃ v', vectorQsort v cmp = some v' ∧ v'.items.Perm v.items ∧
      v'.items.Pairwise (cmp · · = true) ∧ v'.maxsize = v.maxsize := by
  have sized : v.size = v.items.length := rfl
  unfold vectorQsort
  by_cases small : v.size < 2
  · exact ⟨v, if_pos small, List.Perm.refl _, pairwise_of_length_le_one _ (by omega), rfl⟩
  obtain ⟨sorted, run, perm, ordered⟩ :=
    quicksort_segment order (v.size + 1) [] v.items [] (by omega) fun _ mem => mem
  simp only [List.nil_append, List.append_nil, List.length_nil, Nat.zero_add] at run
  rw [show ((0 : Nat) : Int) = 0 from rfl, ← sized] at run
  rw [if_neg small, run]
  exact ⟨_, rfl, perm, ordered, rfl⟩

end Quicksort

end TrieDB
