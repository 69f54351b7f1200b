import TrieDB.Library.LinkedHeap

/-!
`list_merge_sort` of `list.c` over the cells of the heap: `bisect_list` ends
the chain after its first half and returns the second, `merge_list` relinks two
sorted chains behind a dummy head, and the sort does both recursively. Every
loop and the recursion carry a fuel argument as large as the heap, which a
chain never exceeds; only a cyclic list runs out of it. The cells keep their
data and only their links change, and the chain that comes out visits the cells
in the order of `halvingSort` by `cmp(a, b) <= 0`.
-/
namespace TrieDB
open SlotHeap

variable {α : Type}

/-- The loop of `bisect_list`: `fast` moves two nodes for each node `slow`
moves, and `prev` trails `slow`. -/
def bisectLoop (nodes : SlotHeap (Cell α)) :
    Nat → Option Nat → Option Nat → Option Nat → Option (Option Nat × Option Nat)
  | 0, _, _, _ => none
  | fuel + 1, fast, slow, prev =>
    match fast with
    | none => some (slow, prev)
    | some f => do
      let fastNode ← nodes.load f
      match fastNode.next with
      | none => some (slow, prev)
      | some f' => do
        let fastNext ← nodes.load f'
        let s ← slow
        let slowNode ← nodes.load s
        bisectLoop nodes fuel fastNext.next slowNode.next (some s)

/-- `bisect_list`: the node near the middle, once the list before it is ended. -/
def bisectList (nodes : SlotHeap (Cell α)) (head : Option Nat) :
    Option (SlotHeap (Cell α) × Option Nat) := do
  let (slow, prev) ← bisectLoop nodes (nodes.slots.length + 1) head head none
  match prev with
  | none => some (nodes, slow)
  | some prev => do
    let nodes ← nodes.setNext prev none
    some (nodes, slow)

/-- `tail = tail->next = node`, where no `tail` stands for `&dummy_head`, whose
link is `first`. -/
def linkTail (nodes : SlotHeap (Cell α)) (tail first node : Option Nat) :
    Option (SlotHeap (Cell α) × Option Nat) :=
  match tail with
  | none => some (nodes, node)
  | some t => (nodes.setNext t node).map (·, first)

/-- The loop of `merge_list` and the link after it; `first` is
`dummy_head.next`. -/
def mergeLoop (cmp : α → α → Int) : Nat → SlotHeap (Cell α) → Option Nat → Option Nat →
    Option Nat → Option Nat → Option (SlotHeap (Cell α) × Option Nat)
  | 0, _, _, _, _, _ => none
  | fuel + 1, nodes, list1, list2, tail, first =>
    match list1, list2 with
    | some a, some b => do
      let nodeA ← nodes.load a
      let nodeB ← nodes.load b
      if cmp nodeA.data nodeB.data ≤ 0 then do
        let (nodes, first) ← linkTail nodes tail first (some a)
        mergeLoop cmp fuel nodes nodeA.next list2 (some a) first
      else do
        let (nodes, first) ← linkTail nodes tail first (some b)
        mergeLoop cmp fuel nodes list1 nodeB.next (some b) first
    | _, _ => linkTail nodes tail first (if list1.isSome then list1 else list2)

/-- `merge_list`. -/
def mergeList (cmp : α → α → Int) (nodes : SlotHeap (Cell α)) (list1 list2 : Option Nat) :
    Option (SlotHeap (Cell α) × Option Nat) :=
  mergeLoop cmp (nodes.slots.length + 1) nodes list1 list2 none none

/-- `list_merge_sort`; each unit of fuel is one level of recursion. -/
def listMergeSort (cmp : α → α → Int) (nodes : SlotHeap (Cell α)) (head : Option Nat) :
    Option (SlotHeap (Cell α) × Option Nat) :=
  go (nodes.slots.length + 1) nodes head
where
  go : Nat → SlotHeap (Cell α) → Option Nat → Option (SlotHeap (Cell α) × Option Nat)
  | 0, _, _ => none
  | fuel + 1, nodes, list1 =>
    match list1 with
    | none => some (nodes, none)
    | some a => do
      let node ← nodes.load a
      if node.next.isNone then some (nodes, list1)
      else do
        let (nodes, list2) ← bisectList nodes list1
        let (nodes, sorted1) ← go fuel nodes list1
        let (nodes, sorted2) ← go fuel nodes list2
        mergeList cmp nodes sorted1 sorted2

section Bisect
variable {nodes : SlotHeap (Cell α)} {head : Option Nat} {cells : List (Nat × α)}

theorem bisectLoop_spec (chain : Chain nodes head cells) :
    ∀ fuel k, 2 * k ≤ cells.length → cells.length / 2 - k < fuel →
      bisectLoop nodes fuel (addrAt cells none (2 * k)) (addrAt cells none k)
          (if k = 0 then none else addrAt cells none (k - 1)) =
        some (addrAt cells none (cells.length / 2),
          if cells.length / 2 = 0 then none else addrAt cells none (cells.length / 2 - 1))
  | 0, _, _, enough => by omega
  | fuel + 1, k, within, enough => by
    by_cases last : cells.length / 2 = k
    · subst last
      rcases Nat.lt_or_ge (2 * (cells.length / 2)) cells.length with odd | even
      · obtain ⟨fast_at, fast_load⟩ := chain.load_at odd
        have ended : addrAt cells none (2 * (cells.length / 2) + 1) = none :=
          addrAt_of_length_le (by omega) none
        simp [bisectLoop, fast_at, fast_load, ended]
      · have ended : addrAt cells none (2 * (cells.length / 2)) = none := addrAt_of_length_le even none
        simp [bisectLoop, ended]
    · have more : 2 * k + 2 ≤ cells.length := by omega
      obtain ⟨fast_at, fast_load⟩ := chain.load_at (by omega : 2 * k < cells.length)
      obtain ⟨fast_next_at, fast_next_load⟩ := chain.load_at (by omega : 2 * k + 1 < cells.length)
      obtain ⟨slow_at, slow_load⟩ := chain.load_at (by omega : k < cells.length)
      have round := bisectLoop_spec chain fuel (k + 1) (by omega) (by omega)
      rw [if_neg (by omega), show k + 1 - 1 = k from rfl, slow_at, show 2 * (k + 1) = 2 * k + 1 + 1 by omega] at round
      simp [bisectLoop, fast_at, fast_load, fast_next_at, fast_next_load, slow_at, slow_load, round]

theorem addrAt_drop (cells : List (Nat × α)) (q : Option Nat) (k : Nat) :
    addrAt (cells.drop k) q 0 = addrAt cells q k := by
  simp [addrAt]

theorem bisectList_spec {a : Nat} (chain : Chain nodes (some a) cells) (long : 2 ≤ cells.length) :
    ∃ nodes', bisectList nodes (some a) = some (nodes', addrAt cells none (cells.length / 2)) ∧
      Chain nodes' (some a) (cells.take (cells.length / 2)) ∧
      Chain nodes' (addrAt cells none (cells.length / 2)) (cells.drop (cells.length / 2)) ∧
      SameOutside nodes nodes' (cells.map Prod.fst) := by
  have loop := bisectLoop_spec chain (nodes.slots.length + 1) 0 (by omega)
    (by have := chain.length_le; omega)
  have cut_at : cells.length / 2 - 1 < cells.length := by omega
  obtain ⟨prev_at, prev_load⟩ := chain.load_at cut_at
  rw [Nat.mul_zero, if_pos rfl, ← chain.start_eq, if_neg (show cells.length / 2 ≠ 0 by omega),
    prev_at] at loop
  obtain ⟨nodes', cut⟩ := setNext_of_load prev_load none
  have nonempty : cells.take (cells.length / 2) ≠ [] := List.ne_nil_of_length_pos (by simp; omega)
  have last : (cells.take (cells.length / 2)).getLast nonempty = cells[cells.length / 2 - 1] := by
    rw [List.getLast_eq_getElem]
    simp [Nat.min_eq_left (Nat.div_le_self _ _)]
  have whole : Chain nodes (some a) (cells.take (cells.length / 2) ++ cells.drop (cells.length / 2)) := by
    rw [List.take_append_drop]
    exact chain
  obtain ⟨front, back⟩ := whole.cut nonempty (by rw [last]; exact cut)
  refine ⟨nodes', ?_, front, by rwa [addrAt_drop] at back, ?_⟩
  · simp [bisectList, loop, cut]
  · refine (sameOutside_setNext cut).mono fun b mem => ?_
    rw [List.mem_singleton.mp mem]
    exact List.mem_map_of_mem (List.getElem_mem cut_at)

end Bisect

section Merge
variable {nodes : SlotHeap (Cell α)} {tail first : Option Nat}

/-- `cmp(a, b) <= 0` on the data of two cells. -/
def cellLe (cmp : α → α → Int) (x y : Nat × α) : Bool := decide (cmp x.2 y.2 ≤ 0)

/-- What `merge_list` has linked so far: the cells `built`, from
`dummy_head.next = first` to `tail`; while there are none, `tail` is the dummy
head. The link of the last one is not yet set. -/
def Built (nodes : SlotHeap (Cell α)) (tail first : Option Nat) (built : List (Nat × α)) : Prop :=
  (built = [] ∧ tail = none) ∨
    ∃ init t d q, built = init ++ [(t, d)] ∧ tail = some t ∧ Path nodes first built q

theorem apart_of_nodup {xs ys : List (Nat × α)} (nodup : ((xs ++ ys).map Prod.fst).Nodup) :
    ∀ c ∈ ys, c.1 ∉ xs.map Prod.fst := by
  intro c mem before
  rw [List.map_append, List.nodup_append] at nodup
  exact nodup.2.2 _ before _ (List.mem_map_of_mem mem) rfl

theorem linkTail_spec {built rest : List (Nat × α)} {p r : Option Nat}
    (so_far : Built nodes tail first built) (path : Path nodes p rest r)
    (apart : ((built ++ rest).map Prod.fst).Nodup) :
    ∃ nodes' first', linkTail nodes tail first p = some (nodes', first') ∧
      Path nodes' first' (built ++ rest) r ∧ SameOutside nodes nodes' (built.map Prod.fst) := by
  rcases so_far with ⟨rfl, rfl⟩ | ⟨init, t, d, q, rfl, rfl, linked⟩
  · exact ⟨nodes, p, rfl, path, SameOutside.refl _ _⟩
  · obtain ⟨nodes', done⟩ := linked.setNext_last p
    have fresh_init : t ∉ init.map Prod.fst := by
      have := apart.sublist (List.Sublist.map _ (List.sublist_append_left (init ++ [(t, d)]) rest))
      exact apart_of_nodup this (t, d) (List.mem_singleton_self _)
    have fresh_rest : t ∉ rest.map Prod.fst := by
      intro mem
      obtain ⟨c, inside, same⟩ := List.mem_map.mp mem
      exact apart_of_nodup apart c inside (by simp [same])
    refine ⟨nodes', first, by simp [linkTail, done], ?_, ?_⟩
    · exact (linked.relink_last fresh_init done).append (path.frame_setNext fresh_rest done)
    · exact (sameOutside_setNext done).mono fun b mem => by simp [List.mem_singleton.mp mem]

theorem linkTail_cell {built : List (Nat × α)} {c : Nat} {d : α} {next : Option Nat}
    (so_far : Built nodes tail first built) (loaded : nodes.load c = some ⟨d, next⟩)
    (apart : ((built ++ [(c, d)]).map Prod.fst).Nodup) :
    ∃ nodes' first', linkTail nodes tail first (some c) = some (nodes', first') ∧
      Built nodes' (some c) first' (built ++ [(c, d)]) ∧ SameOutside nodes nodes' (built.map Prod.fst) := by
  obtain ⟨nodes', first', link, linked, same⟩ := linkTail_spec so_far (Path.cons loaded (.nil next)) apart
  exact ⟨nodes', first', link, Or.inr ⟨built, c, d, next, rfl, rfl, linked⟩, same⟩

theorem mergeLoop_spec (cmp : α → α → Int) :
    ∀ fuel (nodes : SlotHeap (Cell α)) (A B built : List (Nat × α)) (list1 list2 tail first : Option Nat),
      Chain nodes list1 A → Chain nodes list2 B → Built nodes tail first built →
      ((built ++ A ++ B).map Prod.fst).Nodup → A.length + B.length < fuel →
      ∃ nodes' first', mergeLoop cmp fuel nodes list1 list2 tail first = some (nodes', first') ∧
        Chain nodes' first' (built ++ A.merge B (cellLe cmp)) ∧
        SameOutside nodes nodes' ((built ++ A ++ B).map Prod.fst)
  | 0, _, _, _, _, _, _, _, _, _, _, _, _, enough => by omega
  | fuel + 1, nodes, [], B, built, list1, list2, tail, first, chainA, chainB, so_far, apart, _ => by
    rw [Chain, Path.nil_iff] at chainA
    subst chainA
    obtain ⟨nodes', first', link, linked, same⟩ := linkTail_spec so_far chainB (by simpa using apart)
    refine ⟨nodes', first', by simpa [mergeLoop] using link, by simpa [Chain] using linked, ?_⟩
    exact same.mono fun c mem => by simp at mem ⊢; exact Or.inl mem
  | fuel + 1, nodes, (a, da) :: A, [], built, list1, list2, tail, first, chainA, chainB, so_far, apart, _ => by
    rw [Chain, Path.nil_iff] at chainB
    subst chainB
    obtain ⟨rfl, -⟩ := Path.cons_iff.mp chainA
    obtain ⟨nodes', first', link, linked, same⟩ := linkTail_spec so_far chainA (by simpa using apart)
    refine ⟨nodes', first', by simpa [mergeLoop] using link, by simpa [Chain] using linked, ?_⟩
    exact same.mono fun c mem => by simp at mem ⊢; exact Or.inl mem
  | fuel + 1, nodes, (a, da) :: A, (b, db) :: B, built, list1, list2, tail, first,
      chainA, chainB, so_far, apart, enough => by
    obtain ⟨rfl, nextA, loadA, restA⟩ := Path.cons_iff.mp chainA
    obtain ⟨rfl, nextB, loadB, restB⟩ := Path.cons_iff.mp chainB
    have outside : ∀ c ∈ (a, da) :: A ++ (b, db) :: B, c.1 ∉ built.map Prod.fst :=
      apart_of_nodup (by simpa using apart)
    have in_built : ∀ c ∈ built.map Prod.fst, c ∈ (built ++ (a, da) :: A ++ (b, db) :: B).map Prod.fst :=
      fun c mem => by
        rw [List.map_append, List.map_append]
        exact List.mem_append_left _ (List.mem_append_left _ mem)
    by_cases first_le : cmp da db ≤ 0
    · have apart' : ((built ++ [(a, da)] ++ A ++ (b, db) :: B).map Prod.fst).Nodup := by
        simpa using apart
      obtain ⟨nodes₁, first₁, link, so_far', same₁⟩ :=
        linkTail_cell so_far loadA (apart'.sublist (List.Sublist.map _ (by simp)))
      obtain ⟨nodes', first', run, chain, same⟩ := mergeLoop_spec cmp fuel nodes₁ A ((b, db) :: B)
        (built ++ [(a, da)]) nextA (some b) (some a) first₁
        (restA.frame_sameOutside same₁ fun c mem =>
          outside c (List.mem_cons_of_mem _ (List.mem_append_left _ mem)))
        (chainB.frame_sameOutside same₁ fun c mem =>
          outside c (List.mem_cons_of_mem _ (List.mem_append_right _ mem)))
        so_far' apart' (by simp at enough ⊢; omega)
      refine ⟨nodes', first', by simp [mergeLoop, loadA, loadB, first_le, link, run], ?_, ?_⟩
      · rw [List.cons_merge_cons, if_pos (by simpa [cellLe] using first_le)]
        simpa [Chain] using chain
      · exact (same₁.mono in_built).trans (same.mono fun c mem => by simpa using mem)
    · have middle : ((a, da) :: A ++ (b, db) :: B).Perm ((b, db) :: ((a, da) :: A ++ B)) :=
        List.perm_middle
      have perm : (built ++ [(b, db)] ++ (a, da) :: A ++ B).Perm (built ++ (a, da) :: A ++ (b, db) :: B) := by
        simpa using List.Perm.append_left built middle.symm
      have apart' : ((built ++ [(b, db)] ++ (a, da) :: A ++ B).map Prod.fst).Nodup :=
        (perm.map Prod.fst).nodup_iff.mpr apart
      obtain ⟨nodes₁, first₁, link, so_far', same₁⟩ :=
        linkTail_cell so_far loadB (apart'.sublist (List.Sublist.map _ (by simp)))
      obtain ⟨nodes', first', run, chain, same⟩ := mergeLoop_spec cmp fuel nodes₁ ((a, da) :: A) B
        (built ++ [(b, db)]) (some a) nextB (some b) first₁
        (chainA.frame_sameOutside same₁ fun c mem => outside c (List.mem_append_left _ mem))
        (restB.frame_sameOutside same₁ fun c mem =>
          outside c (List.mem_append_right _ (List.mem_cons_of_mem _ mem)))
        so_far' apart' (by simp at enough ⊢; omega)
      refine ⟨nodes', first', by simp [mergeLoop, loadA, loadB, first_le, link, run], ?_, ?_⟩
      · rw [List.cons_merge_cons, if_neg (by simpa [cellLe] using first_le)]
        simpa [Chain] using chain
      · exact (same₁.mono in_built).trans (same.mono fun c mem => (perm.map Prod.fst).mem_iff.mp mem)

theorem mergeList_spec (cmp : α → α → Int) {list1 list2 : Option Nat} {A B : List (Nat × α)}
    (chainA : Chain nodes list1 A) (chainB : Chain nodes list2 B) (apart : ((A ++ B).map Prod.fst).Nodup) :
    ∃ nodes' first', mergeList cmp nodes list1 list2 = some (nodes', first') ∧
      Chain nodes' first' (A.merge B (cellLe cmp)) ∧ SameOutside nodes nodes' ((A ++ B).map Prod.fst) := by
  have live : ∀ a ∈ (A ++ B).map Prod.fst, (nodes.load a).isSome := by
    rw [List.map_append]
    intro a mem
    rcases List.mem_append.mp mem with inA | inB
    · exact Path.live chainA a inA
    · exact Path.live chainB a inB
  have bound := length_le_of_live apart live
  simp only [List.length_map, List.length_append] at bound
  simpa [mergeList] using mergeLoop_spec cmp (nodes.slots.length + 1) nodes A B [] list1 list2 none none
    chainA chainB (Or.inl ⟨rfl, rfl⟩) (by simpa using apart) (by omega)

end Merge

section MergeSort
variable (cmp : α → α → Int)

theorem map_snd_halvingSort_cellLe (cells : List (Nat × α)) :
    (halvingSort (cellLe cmp) cells).map Prod.snd =
      halvingSort (fun a b => decide (cmp a b ≤ 0)) (cells.map Prod.snd) :=
  @map_halvingSort (Nat × α) α Prod.snd (cellLe cmp) _ (fun _ _ => rfl) cells

theorem map_fst_halvingSort_perm (cells : List (Nat × α)) :
    ((halvingSort (cellLe cmp) cells).map Prod.fst).Perm (cells.map Prod.fst) :=
  (halvingSort_perm _ cells).map Prod.fst

theorem listMergeSort_go_spec :
    ∀ fuel (nodes : SlotHeap (Cell α)) (head : Option Nat) (cells : List (Nat × α)),
      Chain nodes head cells → cells.length < fuel →
      ∃ nodes' head', listMergeSort.go cmp fuel nodes head = some (nodes', head') ∧
        Chain nodes' head' (halvingSort (cellLe cmp) cells) ∧ SameOutside nodes nodes' (cells.map Prod.fst)
  | 0, _, _, _, _, enough => by omega
  | fuel + 1, nodes, head, [], chain, _ => by
    rw [Chain, Path.nil_iff] at chain
    subst chain
    exact ⟨nodes, none, rfl, by rw [halvingSort_short _ (by simp)]; exact .nil none, SameOutside.refl _ _⟩
  | fuel + 1, nodes, head, [(a, d)], chain, _ => by
    obtain ⟨rfl, next, loaded, rest⟩ := Path.cons_iff.mp chain
    rw [Path.nil_iff] at rest
    subst rest
    refine ⟨nodes, some a, by simp [listMergeSort.go, loaded], ?_, SameOutside.refl _ _⟩
    rw [halvingSort_short _ (by simp)]
    exact chain
  | fuel + 1, nodes, head, (a, d) :: c :: cells, chain, enough => by
    obtain ⟨rfl, next, loaded, rest⟩ := Path.cons_iff.mp chain
    have linked : next = some c.1 := rest.start_eq
    set all := (a, d) :: c :: cells
    have long : ¬all.length ≤ 1 := by simp [all]
    obtain ⟨nodes₁, split, chain₁, chain₂, same₁⟩ := bisectList_spec chain (by simp [all])
    set front := all.take (all.length / 2)
    set back := all.drop (all.length / 2)
    have apart : ((front ++ back).map Prod.fst).Nodup := by
      rw [List.take_append_drop]
      exact chain.nodup
    have apart' : ((back ++ front).map Prod.fst).Nodup :=
      ((List.perm_append_comm.map Prod.fst).nodup_iff).mp apart
    obtain ⟨nodes₂, sorted₁, run₁, chain₃, same₂⟩ :=
      listMergeSort_go_spec fuel nodes₁ (some a) front chain₁ (by simp [front, all] at enough ⊢; omega)
    have chain₂' := chain₂.frame_sameOutside same₂ (apart_of_nodup apart)
    obtain ⟨nodes₃, sorted₂, run₂, chain₄, same₃⟩ :=
      listMergeSort_go_spec fuel nodes₂ _ back chain₂' (by simp [back, all] at enough ⊢; omega)
    have chain₃' := chain₃.frame_sameOutside same₃ fun x mem =>
      apart_of_nodup apart' x ((halvingSort_perm _ front).mem_iff.mp mem)
    have halves : (((halvingSort (cellLe cmp) front) ++ halvingSort (cellLe cmp) back).map Prod.fst).Perm
        ((front ++ back).map Prod.fst) := by
      rw [List.map_append, List.map_append]
      exact (map_fst_halvingSort_perm cmp front).append (map_fst_halvingSort_perm cmp back)
    obtain ⟨nodes₄, first, merged, chain₅, same₄⟩ :=
      mergeList_spec cmp chain₃' chain₄ (halves.nodup_iff.mpr apart)
    refine ⟨nodes₄, first, ?_, by rw [halvingSort_long _ long]; exact chain₅, ?_⟩
    · simp [listMergeSort.go, loaded, linked, split, run₁, run₂, merged]
    · have in_all : ∀ x ∈ (front ++ back).map Prod.fst, x ∈ all.map Prod.fst := by
        rw [List.take_append_drop]
        exact fun _ mem => mem
      have same₂' : SameOutside nodes₁ nodes₂ (all.map Prod.fst) :=
        same₂.mono fun x mem => in_all x (by rw [List.map_append]; exact List.mem_append_left _ mem)
      have same₃' : SameOutside nodes₂ nodes₃ (all.map Prod.fst) :=
        same₃.mono fun x mem => in_all x (by rw [List.map_append]; exact List.mem_append_right _ mem)
      have same₄' : SameOutside nodes₃ nodes₄ (all.map Prod.fst) :=
        same₄.mono fun x mem => in_all x (halves.mem_iff.mp mem)
      exact ((same₁.trans same₂').trans same₃').trans same₄'

theorem listMergeSort_spec {nodes : SlotHeap (Cell α)} {head : Option Nat} {cells : List (Nat × α)}
    (chain : Chain nodes head cells) :
    ∃ nodes' head', listMergeSort cmp nodes head = some (nodes', head') ∧
      Chain nodes' head' (halvingSort (cellLe cmp) cells) ∧ SameOutside nodes nodes' (cells.map Prod.fst) :=
  listMergeSort_go_spec cmp _ nodes head cells chain (Nat.lt_succ_of_le chain.length_le)

end MergeSort

end TrieDB
