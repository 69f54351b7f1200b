import TrieDB.Trie
import TrieDB.Library.Run
import TrieDB.Library.KeyMap

/-!
The trie as a finite map from keys to data: `trieNodeSearch root` is the map,
and each operation of `trie.c` acts on it as a map operation. Insertion binds
its key; deletion and prefix deletion remove keys, except the empty key, which
`trie_delete` refuses. The invariant that carries the proofs is `TrieWF`: every
node's children have all their heights at 1, so `bst_insert` never rotates.
-/
namespace TrieDB
open KeyMap BstNode

variable {δ : Type}

section Walk

@[simp] theorem trieNodeFind_nil (n : TrieNode δ) : trieNodeFind n [] = some n := rfl

theorem trieNodeFind_cons (n : TrieNode δ) (c : UInt8) (cs : List UInt8) :
    trieNodeFind n (c :: cs) = (trieChild n c).bind (trieNodeFind · cs) := by
  simp only [trieNodeFind]
  cases trieChild n c <;> rfl

theorem trieNodeFind_append (n : TrieNode δ) (p q : List UInt8) :
    trieNodeFind n (p ++ q) = (trieNodeFind n p).bind (trieNodeFind · q) := by
  induction p generalizing n with
  | nil => rfl
  | cons c p ih =>
    rw [List.cons_append, trieNodeFind_cons, trieNodeFind_cons]
    cases trieChild n c with
    | none => rfl
    | some child => exact ih child

@[simp] theorem trieNodeSearch_nil (n : TrieNode δ) : trieNodeSearch n [] = n.data := rfl

theorem trieNodeSearch_cons (n : TrieNode δ) (c : UInt8) (cs : List UInt8) :
    trieNodeSearch n (c :: cs) = (trieChild n c).bind (trieNodeSearch · cs) := by
  simp only [trieNodeSearch, trieNodeFind_cons]
  cases trieChild n c <;> rfl

theorem below_trieNodeSearch {n m : TrieNode δ} {p : List UInt8} (found : trieNodeFind n p = some m) :
    below (trieNodeSearch n) p = trieNodeSearch m := by
  funext k
  simp [trieNodeSearch, trieNodeFind_append, found]

theorem trieNodeSearch_of_missing {n : TrieNode δ} {p : List UInt8} (missing : trieNodeFind n p = none)
    (q : List UInt8) : trieNodeSearch n (p ++ q) = none := by
  simp [trieNodeSearch, trieNodeFind_append, missing]

theorem trieChild_trieCreateNode (c c' : UInt8) : trieChild (trieCreateNode c : TrieNode δ) c' = none :=
  rfl

theorem trieNodeSearch_trieCreateNode (c : UInt8) :
    trieNodeSearch (trieCreateNode c : TrieNode δ) = fun _ => none := by
  funext k
  cases k with
  | nil => rfl
  | cons c' k => rw [trieNodeSearch_cons, trieChild_trieCreateNode]; rfl

theorem trieNodeSearch_replace {n n' child : TrieNode δ} {c : UInt8}
    (children : ∀ c', trieChild n' c' = if c' = c then some child else trieChild n c')
    (data : n'.data = n.data) :
    trieNodeSearch n' = graft (trieNodeSearch n) [c] (trieNodeSearch child) := by
  funext k
  cases k with
  | nil => rw [trieNodeSearch_nil, graft_cons_nil, trieNodeSearch_nil, data]
  | cons c' k =>
    rw [trieNodeSearch_cons, children c', graft_cons_cons]
    by_cases same : c' = c
    · simp [same]
    · simp [same, trieNodeSearch_cons]

theorem trieChild_write_children (n : TrieNode δ) (c c' : UInt8) (x : TrieNode δ)
    (present : (trieChild n c).isSome) :
    trieChild { n with children := bstWrite n.children c x } c' =
      if c' = c then some x else trieChild n c' := by
  simp only [trieChild] at present ⊢
  rw [bstFind_bstWrite]
  split_ifs with same
  · obtain ⟨old, hold⟩ := Option.isSome_iff_exists.mp present
    rw [hold]
    rfl
  · rfl

theorem trieNodeSearch_trieNodeWrite (f : TrieNode δ → TrieNode δ) :
    ∀ (p : List UInt8) (n m : TrieNode δ), trieNodeFind n p = some m →
      trieNodeSearch (trieNodeWrite f n p) = graft (trieNodeSearch n) p (trieNodeSearch (f m)) := by
  intro p
  induction p with
  | nil =>
    intro n m found
    cases found
    rw [graft_nil]
    rfl
  | cons c p ih =>
    intro n m found
    rw [trieNodeFind_cons] at found
    obtain ⟨child, hchild, rest⟩ := Option.bind_eq_some_iff.mp found
    have written : trieNodeWrite f n (c :: p) =
        { n with children := bstWrite n.children c (trieNodeWrite f child p) } := by
      simp [trieNodeWrite, hchild]
    rw [written, trieNodeSearch_replace
      (trieChild_write_children n c · _ (by simp [hchild])) rfl, ih child m rest]
    funext k
    cases k with
    | nil => simp
    | cons c' k =>
      rw [graft_cons_cons, graft_cons_cons]
      by_cases same : c' = c
      · subst same
        rw [below_trieNodeSearch (by simp [trieNodeFind_cons, hchild] : trieNodeFind n [c'] = some child)]
        simp
      · simp [same]

theorem trieNodeSearch_setData (n : TrieNode δ) (x : Option δ) :
    trieNodeSearch { n with data := x } = Function.update (trieNodeSearch n) [] x := by
  funext k
  cases k with
  | nil => simp
  | cons c k => simp [trieNodeSearch_cons, trieChild]

theorem trieNodeSearch_clearChildren (n : TrieNode δ) :
    trieNodeSearch { n with children := .nil } = fun q => if q = [] then n.data else none := by
  funext k
  cases k with
  | nil => simp
  | cons c k => simp [trieNodeSearch_cons, trieChild]

end Walk

section Invariant

def TrieWF (n : TrieNode δ) : Prop :=
  ∀ p m, trieNodeFind n p = some m → HeightsOne m.children

theorem TrieWF.children {n : TrieNode δ} (wf : TrieWF n) : HeightsOne n.children := wf [] n rfl

theorem TrieWF.child {n m : TrieNode δ} {c : UInt8} (wf : TrieWF n) (found : trieChild n c = some m) :
    TrieWF m := by
  intro p m' reach
  apply wf (c :: p) m'
  rw [trieNodeFind_cons, found]
  exact reach

theorem TrieWF.find {n m : TrieNode δ} {p : List UInt8} (wf : TrieWF n) (found : trieNodeFind n p = some m) :
    TrieWF m := by
  intro q m' reach
  apply wf (p ++ q) m'
  rw [trieNodeFind_append, found]
  exact reach

theorem TrieWF.intro {n : TrieNode δ} (heights : HeightsOne n.children)
    (below : ∀ c m, trieChild n c = some m → TrieWF m) : TrieWF n := by
  intro p m reach
  cases p with
  | nil =>
    cases reach
    exact heights
  | cons c p =>
    rw [trieNodeFind_cons] at reach
    obtain ⟨child, hchild, rest⟩ := Option.bind_eq_some_iff.mp reach
    exact below c child hchild p m rest

theorem trieWF_trieCreateNode (c : UInt8) : TrieWF (trieCreateNode c : TrieNode δ) :=
  TrieWF.intro trivial (fun _ _ found => by cases found)

theorem trieWF_setData {n : TrieNode δ} (wf : TrieWF n) (x : Option δ) :
    TrieWF { n with data := x } :=
  TrieWF.intro wf.children (fun _ _ found => wf.child found)

theorem trieWF_clearChildren (n : TrieNode δ) : TrieWF { n with children := .nil } :=
  TrieWF.intro trivial (fun _ _ found => by cases found)

theorem trieWF_replace {n n' child : TrieNode δ} {c : UInt8} (wf : TrieWF n)
    (heights : HeightsOne n'.children) (wfChild : TrieWF child)
    (children : ∀ c', trieChild n' c' = if c' = c then some child else trieChild n c') :
    TrieWF n' := by
  apply TrieWF.intro heights
  intro c' m found
  rw [children c'] at found
  split_ifs at found
  · cases found
    exact wfChild
  · exact wf.child found

theorem trieWF_trieNodeWrite (f : TrieNode δ → TrieNode δ) :
    ∀ (p : List UInt8) (n m : TrieNode δ), TrieWF n → trieNodeFind n p = some m →
      TrieWF (f m) → TrieWF (trieNodeWrite f n p) := by
  intro p
  induction p with
  | nil =>
    intro n m _ found wfm
    cases found
    exact wfm
  | cons c p ih =>
    intro n m wf found wfm
    rw [trieNodeFind_cons] at found
    obtain ⟨child, hchild, rest⟩ := Option.bind_eq_some_iff.mp found
    have written : trieNodeWrite f n (c :: p) =
        { n with children := bstWrite n.children c (trieNodeWrite f child p) } := by
      simp [trieNodeWrite, hchild]
    rw [written]
    exact trieWF_replace wf (heightsOne_bstWrite wf.children c _)
      (ih child m (wf.child hchild) rest wfm) (trieChild_write_children n c · _ (by simp [hchild]))

end Invariant

section Insert

theorem trieNodeInsert_spec (data : δ) :
    ∀ (key : List UInt8) (cursor : TrieNode δ) (size : Nat), TrieWF cursor →
      ∃ cursor' size', trieNodeInsert cursor key data size = some (cursor', size') ∧
        TrieWF cursor' ∧
        trieNodeSearch cursor' = Function.update (trieNodeSearch cursor) key (some data) ∧
        size' = if trieNodeSearch cursor key = none then size + 1 else size := by
  intro key
  induction key with
  | nil =>
    intro cursor size wf
    refine ⟨{ cursor with data := some data }, _, rfl, trieWF_setData wf _,
      trieNodeSearch_setData cursor _, ?_⟩
    · cases hdata : cursor.data <;> simp [hdata]
  | cons c cs ih =>
    intro cursor size wf
    cases hchild : trieChild cursor c with
    | some tmp =>
      obtain ⟨child, size', run, wfChild, map, count⟩ := ih tmp size (wf.child hchild)
      have children := (trieChild_write_children cursor c · child (by simp [hchild]))
      refine ⟨{ cursor with children := bstWrite cursor.children c child }, size', ?_, ?_, ?_, ?_⟩
      · simp [trieNodeInsert, hchild, run]
      · exact trieWF_replace wf (heightsOne_bstWrite wf.children c child) wfChild children
      · rw [trieNodeSearch_replace children rfl, map, ← below_trieNodeSearch
          (by simp [trieNodeFind_cons, hchild] : trieNodeFind cursor [c] = some tmp),
          ← update_append_eq_graft]
        rfl
      · rw [count, trieNodeSearch_cons, hchild]
        rfl
    | none =>
      obtain ⟨child, size', run, wfChild, map, count⟩ :=
        ih (trieCreateNode c) size (trieWF_trieCreateNode c)
      have heights := wf.children
      have children : ∀ c', trieChild { cursor with children := leafInsert cursor.children c child } c' =
          if c' = c then some child else trieChild cursor c' := by
        intro c'
        simp only [trieChild] at hchild ⊢
        rw [bstFind_leafInsert]
        by_cases same : c' = c <;> simp [same, hchild]
      refine ⟨{ cursor with children := leafInsert cursor.children c child }, size', ?_, ?_, ?_, ?_⟩
      · simp [trieNodeInsert, hchild, run, bstInsert_of_heightsOne heights]
      · exact trieWF_replace wf (heightsOne_leafInsert heights c child) wfChild children
      · have empty : below (trieNodeSearch cursor) [c] = trieNodeSearch (trieCreateNode c) := by
          funext k
          simp [trieNodeSearch_cons, hchild, trieNodeSearch_trieCreateNode]
        rw [trieNodeSearch_replace children rfl, map, ← empty, ← update_append_eq_graft]
        rfl
      · rw [count, trieNodeSearch_cons, hchild, trieNodeSearch_trieCreateNode]
        simp

theorem trieInsert_spec (trie : Trie δ) (key : CStr) (data : δ) (wf : TrieWF trie.root) :
    ∃ trie', trieInsert trie key data = some trie' ∧ trie'.destructor = trie.destructor ∧
      TrieWF trie'.root ∧
      trieNodeSearch trie'.root = Function.update (trieNodeSearch trie.root) key.bytes (some data) ∧
      trie'.size = if trieNodeSearch trie.root key.bytes = none then trie.size + 1 else trie.size := by
  obtain ⟨root, size, run, wf', map, count⟩ := trieNodeInsert_spec data key.bytes trie.root trie.size wf
  exact ⟨{ trie with root, size }, by simp [trieInsert, run], rfl, wf', map, count⟩

end Insert

section Delete

/-- The destructors tries are made with: NULL in the tests, and
`trie_node_destructor` in the server. -/
def UsedDestructor (destructor : Option (TrieDestructor δ)) : Prop :=
  destructor = none ∨ destructor = some trieNodeDestructor

theorem trieDeleteHere_of_used {destructor : Option (TrieDestructor δ)}
    (used : UsedDestructor destructor) (n : TrieNode δ) :
    (trieDeleteHere destructor n).1 = none ∧ (trieDeleteHere destructor n).2.2 = n.data.isSome := by
  rcases used with rfl | rfl
  · cases hdata : n.data <;> simp [trieDeleteHere, hdata]
  · simp [trieDeleteHere, trieNodeDestructor]

@[simp] theorem trieDelete_destructor (trie : Trie δ) (key : CStr) :
    (trieDelete trie key).1.destructor = trie.destructor := by
  unfold trieDelete
  split_ifs
  · cases trieNodeFind trie.root key.bytes <;> rfl
  · rfl

theorem length_pos_iff (key : CStr) : key.length > 0 ↔ key.bytes ≠ [] := by
  simp [CStr.length, List.length_pos_iff]

theorem trieDelete_of_unfound {trie : Trie δ} {key : CStr}
    (unfound : key.bytes = [] ∨ trieNodeFind trie.root key.bytes = none) :
    (trieDelete trie key).1 = trie := by
  rcases unfound with empty | missing
  · have notPos : ¬ key.length > 0 := by rw [length_pos_iff]; exact not_not.mpr empty
    simp [trieDelete, notPos]
  · unfold trieDelete
    split_ifs
    · rw [missing]
    · rfl

theorem trieDelete_of_found {trie : Trie δ} {key : CStr} {retnode : TrieNode δ}
    (used : UsedDestructor trie.destructor) (nonempty : key.bytes ≠ [])
    (found : trieNodeFind trie.root key.bytes = some retnode) :
    (trieDelete trie key).1 = { trie with
      root := trieNodeWrite (fun n => { n with data := none }) trie.root key.bytes
      size := if retnode.data.isSome then trie.size - 1 else trie.size } := by
  obtain ⟨cleared, dropped⟩ := trieDeleteHere_of_used used retnode
  simp only [trieDelete, (length_pos_iff key).mpr nonempty, if_true, found, cleared, dropped]

theorem trieDelete_spec (trie : Trie δ) (key : CStr) (used : UsedDestructor trie.destructor)
    (wf : TrieWF trie.root) :
    TrieWF (trieDelete trie key).1.root ∧
      trieNodeSearch (trieDelete trie key).1.root =
        (if key.bytes = [] then trieNodeSearch trie.root
          else Function.update (trieNodeSearch trie.root) key.bytes none) ∧
      (trieDelete trie key).1.size =
        (if key.bytes ≠ [] ∧ (trieNodeSearch trie.root key.bytes).isSome then trie.size - 1
          else trie.size) := by
  by_cases empty : key.bytes = []
  · rw [trieDelete_of_unfound (Or.inl empty)]
    simp [empty, wf]
  · cases found : trieNodeFind trie.root key.bytes with
    | none =>
      have unbound : trieNodeSearch trie.root key.bytes = none := by
        simpa using trieNodeSearch_of_missing found []
      rw [trieDelete_of_unfound (Or.inr found)]
      simp [empty, wf, unbound]
    | some retnode =>
      have bound : trieNodeSearch trie.root key.bytes = retnode.data := by
        simp [trieNodeSearch, found]
      have map : trieNodeSearch (trieNodeWrite (fun n => { n with data := none }) trie.root key.bytes) =
          Function.update (trieNodeSearch trie.root) key.bytes none := by
        rw [trieNodeSearch_trieNodeWrite _ _ _ _ found, trieNodeSearch_setData,
          ← below_trieNodeSearch found]
        simpa using (update_append_eq_graft key.bytes [] none).symm
      rw [trieDelete_of_found used empty found]
      exact ⟨trieWF_trieNodeWrite _ _ _ _ wf found (trieWF_setData (wf.find found) none),
        by simpa [empty] using map, by simp [empty, bound]⟩

@[simp] theorem triePrefixDelete_destructor (trie : Trie δ) (key : CStr) :
    (triePrefixDelete trie key).destructor = trie.destructor := by
  unfold triePrefixDelete
  split
  · rfl
  · split_ifs <;> simp

theorem trieDelete_pruned (trie t : Trie δ) (key : CStr) (data : Option δ)
    (used : UsedDestructor t.destructor) (wf : TrieWF t.root)
    (map : trieNodeSearch t.root = graft (trieNodeSearch trie.root) key.bytes
      (fun q => if q = [] then data else none))
    (bound : trieNodeSearch trie.root key.bytes = data) :
    TrieWF (trieDelete t key).1.root ∧
      trieNodeSearch (trieDelete t key).1.root =
        fun k => if key.bytes <+: k ∧ k ≠ [] then none else trieNodeSearch trie.root k := by
  obtain ⟨wf', map', -⟩ := trieDelete_spec t key used wf
  refine ⟨wf', ?_⟩
  rw [map', map]
  by_cases empty : key.bytes = []
  · rw [empty] at bound ⊢
    funext k
    cases k <;> simp [bound]
  · rw [if_neg empty, update_graft_root]
    funext k
    by_cases same : k = [] <;> simp [same, List.prefix_nil, empty]

theorem triePrefixDelete_spec (trie : Trie δ) (key : CStr) (used : UsedDestructor trie.destructor)
    (wf : TrieWF trie.root) :
    TrieWF (triePrefixDelete trie key).root ∧
      trieNodeSearch (triePrefixDelete trie key).root =
        fun k => if key.bytes <+: k ∧ k ≠ [] then none else trieNodeSearch trie.root k := by
  cases found : trieNodeFind trie.root key.bytes with
  | none =>
    refine ⟨by simpa [triePrefixDelete, found] using wf, ?_⟩
    simp only [triePrefixDelete, found]
    funext k
    split_ifs with below
    · obtain ⟨⟨q, rfl⟩, -⟩ := below
      exact trieNodeSearch_of_missing found q
    · rfl
  | some cursor =>
    have bound : trieNodeSearch trie.root key.bytes = cursor.data := by
      simp [trieNodeSearch, found]
    have whole := graft_below (m := trieNodeSearch trie.root) key.bytes
    rw [below_trieNodeSearch found] at whole
    by_cases free : trieIsFreeNode cursor
    · have leaf : cursor = { cursor with children := .nil } := by
        simp only [trieIsFreeNode, BstNode.isNil_iff] at free
        cases cursor
        simp_all
      have map : trieNodeSearch trie.root = graft (trieNodeSearch trie.root) key.bytes
          (fun q => if q = [] then cursor.data else none) := by
        rw [← trieNodeSearch_clearChildren, ← leaf, whole]
      simpa [triePrefixDelete, found, free] using
        trieDelete_pruned trie trie key cursor.data used wf map bound
    · have map : trieNodeSearch (trieNodeWrite (fun n => { n with children := .nil }) trie.root key.bytes) =
          graft (trieNodeSearch trie.root) key.bytes (fun q => if q = [] then cursor.data else none) := by
        rw [trieNodeSearch_trieNodeWrite _ _ _ _ found, trieNodeSearch_clearChildren]
      have wf' := trieWF_trieNodeWrite (fun n => { n with children := .nil }) _ _ _ wf found
        (trieWF_clearChildren cursor)
      have pruned := trieDelete_pruned trie
        { trie with
            root := trieNodeWrite (fun n => { n with children := .nil }) trie.root key.bytes
            size := childrenDestroy trie.destructor cursor.children trie.size }
        key cursor.data used wf' map bound
      simpa [triePrefixDelete, found, free] using pruned

end Delete

section Run

/-- The operations of `trie.c` that change a trie. -/
inductive TrieOp (δ : Type) where
  | insert (key : CStr) (data : δ)
  | delete (key : CStr)
  | prefixDelete (key : CStr)

/-- One operation; only `trie_insert`, through `bst_insert`, can fail. -/
def trieStep (trie : Trie δ) : TrieOp δ → Option (Trie δ)
  | .insert key data => trieInsert trie key data
  | .delete key => some (trieDelete trie key).1
  | .prefixDelete key => some (triePrefixDelete trie key)

/-- The operations on a finite map keyed by strings: bind a key, remove a key,
remove every key a prefix starts. -/
def finiteMapStep (m : List UInt8 → Option δ) : TrieOp δ → List UInt8 → Option δ
  | .insert key data => Function.update m key.bytes (some data)
  | .delete key => Function.update m key.bytes none
  | .prefixDelete key => fun k => if key.bytes <+: k then none else m k

/-- The same operations, except that the empty key, once bound, is never
removed. -/
def trieMapStep (m : List UInt8 → Option δ) : TrieOp δ → List UInt8 → Option δ
  | .insert key data => Function.update m key.bytes (some data)
  | .delete key => if key.bytes = [] then m else Function.update m key.bytes none
  | .prefixDelete key => fun k => if key.bytes <+: k ∧ k ≠ [] then none else m k

theorem foldl_trieMapStep_of_ne_nil (ops : List (TrieOp δ)) :
    ∀ {m m' : List UInt8 → Option δ}, (∀ k, k ≠ [] → m k = m' k) →
      ∀ k, k ≠ [] → (ops.foldl trieMapStep m) k = (ops.foldl finiteMapStep m') k := by
  induction ops with
  | nil => intro m m' agree; exact agree
  | cons op ops ih =>
    intro m m' agree
    apply ih
    intro k nonempty
    cases op with
    | insert key data =>
      simp only [trieMapStep, finiteMapStep, Function.update_apply]
      split_ifs
      · rfl
      · exact agree k nonempty
    | delete key =>
      by_cases empty : key.bytes = []
      · -- the trie keeps the empty key, which the map drops
        simp [trieMapStep, finiteMapStep, empty, nonempty, agree k nonempty]
      · simp only [trieMapStep, finiteMapStep, empty, if_false, Function.update_apply]
        split_ifs
        · rfl
        · exact agree k nonempty
    | prefixDelete key =>
      simp only [trieMapStep, finiteMapStep, nonempty, ne_eq, not_false_eq_true, and_true]
      split_ifs
      · rfl
      · exact agree k nonempty

/-- What holds of every trie a run from `trie_new(destructor)` reaches. -/
structure TrieInv (destructor : Option (TrieDestructor δ)) (trie : Trie δ) : Prop where
  wf : TrieWF trie.root
  madeWith : trie.destructor = destructor

theorem trieInv_trieNew (destructor : Option (TrieDestructor δ)) :
    TrieInv destructor (trieNew destructor) :=
  ⟨trieWF_trieCreateNode 0, rfl⟩

section
variable {destructor : Option (TrieDestructor δ)} (used : UsedDestructor destructor)
include used

theorem trieStep_keeps : OpRun.Keeps trieStep (TrieInv destructor) := by
  intro trie op inv
  have used' : UsedDestructor trie.destructor := inv.madeWith ▸ used
  cases op with
  | insert key data =>
    obtain ⟨trie', run, made, wf', -⟩ := trieInsert_spec trie key data inv.wf
    exact ⟨trie', run, wf', made.trans inv.madeWith⟩
  | delete key =>
    exact ⟨_, rfl, (trieDelete_spec trie key used' inv.wf).1, by simpa using inv.madeWith⟩
  | prefixDelete key =>
    exact ⟨_, rfl, (triePrefixDelete_spec trie key used' inv.wf).1, by simpa using inv.madeWith⟩

theorem trieStep_commutes :
    OpRun.Commutes trieStep (TrieInv destructor) (fun trie => trieNodeSearch trie.root) trieMapStep := by
  intro trie op trie' inv step
  have used' : UsedDestructor trie.destructor := inv.madeWith ▸ used
  cases op with
  | insert key data =>
    obtain ⟨t, run, -, -, map, -⟩ := trieInsert_spec trie key data inv.wf
    rw [trieStep, run, Option.some.injEq] at step
    subst step
    exact map
  | delete key =>
    cases step
    exact (trieDelete_spec trie key used' inv.wf).2.1
  | prefixDelete key =>
    cases step
    exact (triePrefixDelete_spec trie key used' inv.wf).2

end

/-- From `trie_new` with either destructor, every run of the three operations
succeeds, and `trie_find` then answers from the map that the same operations
build, with the empty key never removed. -/
theorem trieFind_refines_map (destructor : Option (TrieDestructor δ))
    (used : UsedDestructor destructor) (ops : List (TrieOp δ)) :
    ∃ trie, OpRun.run trieStep (trieNew destructor) ops = some trie ∧
      ∀ key : CStr, trieFind trie key =
        (((ops.foldl trieMapStep fun _ => none) key.bytes).isSome,
          (ops.foldl trieMapStep fun _ => none) key.bytes) := by
  obtain ⟨trie, run, -, map⟩ := OpRun.run_simulates (trieStep_keeps used) (trieStep_commutes used)
    ops _ (trieInv_trieNew destructor)
  have start : trieNodeSearch (trieNew destructor).root = fun _ => none :=
    trieNodeSearch_trieCreateNode 0
  refine ⟨trie, run, fun key => ?_⟩
  simp only [trieFind, map, start]

theorem trieFind_refines_map_after_put :
    ∃ trie, OpRun.run trieStep (trieNew (some trieNodeDestructor))
        [TrieOp.insert CStr.empty (7 : Nat), .prefixDelete CStr.empty] = some trie ∧
      ∀ key : CStr, trieFind trie key =
        ((([TrieOp.insert CStr.empty (7 : Nat), .prefixDelete CStr.empty].foldl trieMapStep
            fun _ => none) key.bytes).isSome,
          ([TrieOp.insert CStr.empty (7 : Nat), .prefixDelete CStr.empty].foldl trieMapStep
            fun _ => none) key.bytes) :=
  trieFind_refines_map (some trieNodeDestructor) (Or.inr rfl) _

/-- A map with delete removes the empty key; the trie keeps it. -/
theorem trieDelete_keeps_empty_key :
    ∃ trie, OpRun.run trieStep (trieNew none)
        [TrieOp.insert CStr.empty (1 : Nat), .delete CStr.empty] = some trie ∧
      trieFind trie CStr.empty = (true, some 1) ∧
      ([TrieOp.insert CStr.empty (1 : Nat), .delete CStr.empty].foldl finiteMapStep
        fun _ => none) CStr.empty.bytes = none :=
  ⟨_, rfl, rfl, by decide⟩

end Run

end TrieDB
