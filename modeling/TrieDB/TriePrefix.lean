import TrieDB.TrieEntries
import Mathlib.Data.Set.Card

/-!
`trie_prefix_find` and `trie_prefix_count` against the map of a trie. The walk
of `trie_node_prefix_find` writes each node's character into the 32-byte buffer
at its depth and copies the buffer as a key at every node with data, so on a
keyed trie no deeper than the buffer it reports exactly the entries below the
prefix, in the pre-order of the children trees, which is not the order of the
keys. `trie_prefix_count` counts the same entries.
-/
namespace TrieDB
open BstNode

variable {δ : Type}

section Buffer

theorem storeByte_of_lt {str : List UInt8} {i : Nat} (inside : i < str.length) (b : UInt8) :
    storeByte str i b = some (str.set i b) := by
  have notHeader : (i : Int) ≠ -1 := by omega
  have within : 0 ≤ (i : Int) ∧ (i : Int) < str.length := by omega
  simp [storeByte, notHeader, within]

theorem ofBytes_set_set {str : List UInt8} {level : Nat} (room : level + 1 < str.length)
    (pre : 0 ∉ str.take level) {chr : UInt8} (nonzero : chr ≠ 0) :
    (CStr.ofBytes ((str.set level chr).set (level + 1) 0)).bytes = str.take level ++ [chr] := by
  have inside : level + 1 < (str.set level chr).length := by simpa using room
  rw [set_eq_take_cons_drop inside, take_succ_set (by omega)]
  simp only [CStr.ofBytes]
  rw [List.takeWhile_append_of_pos]
  · simp
  · intro b mem
    rw [List.mem_append, List.mem_singleton] at mem
    rcases mem with above | rfl
    · have ne : b ≠ 0 := fun same => pre (same ▸ above)
      simpa using ne
    · simpa using nonzero

end Buffer

section Walk

theorem childrenPrefixFind_node (c : UInt8) (h : Int) (left right : BstNode (TrieNode δ))
    (child : TrieNode δ) (str : List UInt8) (level : Int) (keys : Vector (KvObj δ)) :
    childrenPrefixFind (.node c h left right child) str level keys =
      (trieNodePrefixFind child str level keys).bind fun r =>
        (if left.isNil then some r else childrenPrefixFind left r.1 level r.2).bind fun r =>
          if right.isNil then some r else childrenPrefixFind right r.1 level r.2 := by
  rw [childrenPrefixFind]
  simp only [Option.bind_eq_bind, Option.pure_def]
  congr 1
  funext r
  cases left.isNil <;> rfl

abbrev kvPairs (keys : Vector (KvObj δ)) : List (List UInt8 × δ) :=
  keys.items.map fun kv => (kv.key.bytes, kv.data)

mutual
theorem trieNodePrefixFind_spec :
    ∀ (n : TrieNode δ) (str : List UInt8) (level : Nat) (keys : Vector (KvObj δ)),
      NodeKeyed n → n.chr ≠ 0 → str.length = 32 → level + trieNodeHeight n ≤ 30 →
        0 ∉ str.take level →
      ∃ str' keys', trieNodePrefixFind n str level keys = some (str', keys') ∧
        str'.length = 32 ∧ str'.take level = str.take level ∧
        kvPairs keys' = kvPairs keys ++
          (trieNodeEntries n).map fun e => (str.take level ++ n.chr :: e.1, e.2)
  | ⟨chr, children, data⟩, str, level, keys, ⟨_, keyed⟩, nonzero, len, high, pre => by
    have fits : ¬ ((level : Int) = str.length) := by omega
    have room : level < str.length := by omega
    have height : level + 1 + childrenHeight children ≤ 31 := by
      have : trieNodeHeight ⟨chr, children, data⟩ = childrenHeight children := rfl
      omega
    have succ : ((level : Int) + 1) = ((level + 1 : Nat) : Int) := by push_cast; rfl
    have below : ∀ (str₁ : List UInt8) (keys₁ : Vector (KvObj δ)), str₁.length = 32 →
        str₁.take (level + 1) = str.take level ++ [chr] →
        ∃ str' keys', (if children.isNil then some (str₁, keys₁)
            else childrenPrefixFind children str₁ ((level : Int) + 1) keys₁) = some (str', keys') ∧
          str'.length = 32 ∧ str'.take level = str.take level ∧
          kvPairs keys' = kvPairs keys₁ ++
            (childrenEntries children).map fun e => (str.take level ++ chr :: e.1, e.2) := by
      intro str₁ keys₁ len₁ take₁
      have pre₁ : 0 ∉ str₁.take (level + 1) := by
        rw [take₁, List.mem_append, List.mem_singleton]
        rintro (above | zero)
        · exact pre above
        · exact nonzero zero.symm
      obtain ⟨str', keys', run, len', take', items'⟩ :=
        childrenPrefixFind_spec children str₁ (level + 1) keys₁ keyed len₁ height pre₁
      refine ⟨str', keys', by rw [succ]; exact run, len', ?_, ?_⟩
      · calc str'.take level = (str'.take (level + 1)).take level := by
              rw [List.take_take, Nat.min_eq_left (by omega)]
          _ = str.take level := by rw [take', take₁, List.take_left' (by simp; omega)]
      · rw [items', take₁]
        simp
    have stored := storeByte_of_lt room chr
    cases data with
    | none =>
      obtain ⟨str', keys', run, len', take', items'⟩ := below (str.set level chr) keys
        (by simp [len]) (take_succ_set room chr)
      refine ⟨str', keys', ?_, len', take', ?_⟩
      · simp only [trieNodePrefixFind, fits, if_false, stored, Option.bind_eq_bind, Option.bind_some]
        exact run
      · simpa [trieNodeEntries] using items'
    | some d =>
      have room₁ : level + 1 < (str.set level chr).length := by simp; omega
      have key := ofBytes_set_set (by omega : level + 1 < str.length) pre nonzero
      obtain ⟨str', keys', run, len', take', items'⟩ :=
        below ((str.set level chr).set (level + 1) 0)
          (vectorAppend keys ⟨CStr.ofBytes ((str.set level chr).set (level + 1) 0), d⟩)
          (by simp [len]) (by rw [List.take_set_of_le (by omega), take_succ_set room chr])
      refine ⟨str', keys', ?_, len', take', ?_⟩
      · have stored₁ := storeByte_of_lt room₁ 0
        rw [← succ] at stored₁
        simp only [trieNodePrefixFind, fits, if_false, stored, stored₁, Option.bind_eq_bind,
          Option.bind_some, Option.pure_def]
        exact run
      · rw [items']
        simp [trieNodeEntries, kvPairs, key]

theorem childrenPrefixFind_spec :
    ∀ (t : BstNode (TrieNode δ)) (str : List UInt8) (level : Nat) (keys : Vector (KvObj δ)),
      ChildrenKeyed t → str.length = 32 → level + childrenHeight t ≤ 31 → 0 ∉ str.take level →
      ∃ str' keys', (if t.isNil then some (str, keys)
          else childrenPrefixFind t str level keys) = some (str', keys') ∧
        str'.length = 32 ∧ str'.take level = str.take level ∧
        kvPairs keys' = kvPairs keys ++
          (childrenEntries t).map fun e => (str.take level ++ e.1, e.2)
  | .nil, str, level, keys, _, len, _, _ => ⟨str, keys, rfl, len, rfl, by simp [childrenEntries]⟩
  | .node c h left right child, str, level, keys, ⟨chr, nonzero, keyedChild, keyedL, keyedR⟩,
      len, high, pre => by
    have heights : level + trieNodeHeight child ≤ 30 ∧ level + childrenHeight left ≤ 31 ∧
        level + childrenHeight right ≤ 31 := by
      simp only [childrenHeight] at high
      omega
    obtain ⟨str₁, keys₁, run₁, len₁, take₁, items₁⟩ := trieNodePrefixFind_spec child str level keys
      keyedChild (chr ▸ nonzero) len heights.1 pre
    obtain ⟨str₂, keys₂, run₂, len₂, take₂, items₂⟩ := childrenPrefixFind_spec left str₁ level keys₁
      keyedL len₁ heights.2.1 (take₁ ▸ pre)
    obtain ⟨str₃, keys₃, run₃, len₃, take₃, items₃⟩ := childrenPrefixFind_spec right str₂ level keys₂
      keyedR len₂ heights.2.2 (take₂ ▸ take₁ ▸ pre)
    refine ⟨str₃, keys₃, ?_, len₃, by rw [take₃, take₂, take₁], ?_⟩
    · have present : (node c h left right child).isNil = false := rfl
      rw [present, if_neg Bool.false_ne_true, childrenPrefixFind_node, run₁, Option.bind_some,
        run₂, Option.bind_some, run₃]
    · rw [items₃, take₂, take₁, items₂, take₁, items₁, chr]
      simp [childrenEntries]
end

end Walk

section Prefix

theorem take_pred_append_last {p : List UInt8} {c : UInt8} (last : p.getLast? = some c) :
    p.take (p.length - 1) ++ [c] = p := by
  obtain ⟨q, rfl⟩ := List.getLast?_eq_some_iff.mp last
  simp

theorem triePrefixFind_spec {trie : Trie δ} (keyed : NodeKeyed trie.root)
    (high : trieNodeHeight trie.root ≤ 31) (p : CStr) (nonempty : 0 < p.length) :
    (trieNodeFind trie.root p.bytes = none ∧ triePrefixFind trie p = some none) ∨
      ∃ m v, trieNodeFind trie.root p.bytes = some m ∧ triePrefixFind trie p = some (some v) ∧
        kvPairs v = (trieNodeEntries m).map fun e => (p.bytes ++ e.1, e.2) := by
  cases found : trieNodeFind trie.root p.bytes with
  | none => exact .inl ⟨rfl, by simp [triePrefixFind, found]⟩
  | some m =>
    refine .inr ⟨m, ?_⟩
    have depth := trieNodeHeight_of_find p.bytes trie.root m found
    obtain ⟨keyedM, chrM⟩ := keyed_of_find p.bytes trie.root m keyed found
    have len : p.bytes.length = p.length := rfl
    obtain ⟨c, last⟩ : ∃ c, p.bytes.getLast? = some c := by
      cases h : p.bytes.getLast? with
      | none => rw [List.getLast?_eq_none_iff] at h; simp [CStr.length, h] at nonempty
      | some c => exact ⟨c, rfl⟩
    have chr := chrM c (by simp [last])
    have nonzero : m.chr ≠ 0 := by
      rw [chr]
      rintro rfl
      exact p.nul_free (List.mem_of_getLast? last)
    have short : p.length < 32 := by omega
    have level : ((p.length : Int) - 1) = ((p.length - 1 : Nat) : Int) := by omega
    have take : (p.bytes ++ List.replicate (32 - p.length) 0).take (p.length - 1) =
        p.bytes.take (p.length - 1) := List.take_append_of_le_length (by omega)
    have pre : 0 ∉ (p.bytes ++ List.replicate (32 - p.length) 0).take (p.length - 1) := by
      rw [take]
      exact fun mem => p.nul_free (List.mem_of_mem_take mem)
    obtain ⟨str', keys', run, -, -, items⟩ := trieNodePrefixFind_spec m
      (p.bytes ++ List.replicate (32 - p.length) 0) (p.length - 1) vectorNew keyedM nonzero
      (by simp [CStr.length] at short ⊢; omega) (by omega) pre
    refine ⟨keys', rfl, ?_, ?_⟩
    · rw [triePrefixFind, found]
      dsimp only
      rw [if_pos short, level, run]
      rfl
    · rw [items, take, chr]
      have whole := take_pred_append_last last
      rw [len] at whole
      have shift : ∀ e : List UInt8 × δ,
          (p.bytes.take (p.length - 1) ++ c :: e.1, e.2) = (p.bytes ++ e.1, e.2) := by
        intro e
        calc (p.bytes.take (p.length - 1) ++ c :: e.1, e.2)
            = ((p.bytes.take (p.length - 1) ++ [c]) ++ e.1, e.2) := by simp
          _ = (p.bytes ++ e.1, e.2) := by rw [whole]
      simp only [kvPairs, vectorNew, List.map_nil, List.nil_append, shift]

theorem mem_entries_below {root m : TrieNode δ} {p : List UInt8} (keyed : NodeKeyed root)
    (found : trieNodeFind root p = some m) (k : List UInt8) (d : δ) :
    (k, d) ∈ (trieNodeEntries m).map (fun e => (p ++ e.1, e.2)) ↔
      p <+: k ∧ trieNodeSearch root k = some d := by
  have keyedM := (keyed_of_find p root m keyed found).1
  have shift : ∀ q, trieNodeSearch root (p ++ q) = trieNodeSearch m q := fun q => by
    rw [← below_trieNodeSearch found]
    rfl
  simp only [List.mem_map, Prod.mk.injEq]
  constructor
  · rintro ⟨e, entry, rfl, rfl⟩
    exact ⟨⟨e.1, rfl⟩, by rw [shift, ← mem_trieNodeEntries_iff keyedM]; exact entry⟩
  · rintro ⟨⟨q, rfl⟩, bound⟩
    rw [shift, ← mem_trieNodeEntries_iff keyedM] at bound
    exact ⟨(q, d), bound, rfl, rfl⟩

theorem ne_nil_of_below {p : CStr} {k : List UInt8} (nonempty : 0 < p.length)
    (below : p.bytes <+: k) : k ≠ [] := by
  obtain ⟨q, rfl⟩ := below
  intro empty
  simp [CStr.length, List.append_eq_nil_iff.mp empty] at nonempty

theorem nodup_entries_below {root m : TrieNode δ} {p : List UInt8} (keyed : NodeKeyed root)
    (found : trieNodeFind root p = some m) :
    ((trieNodeEntries m).map fun e => p ++ e.1).Nodup := by
  have nodup := trieNodeEntries_nodup m (keyed_of_find p root m keyed found).1
  have shifted := List.Nodup.map (List.append_right_injective p) nodup
  rw [List.map_map] at shifted
  exact shifted

end Prefix

section Agree
/- A trie whose map agrees with `M` at every key below the prefix: below a
non-empty prefix every trie a run reaches agrees with the map whose delete
removes the empty key too, and below any prefix with the one that keeps it. -/
variable {root : TrieNode δ} {M : List UInt8 → Option δ} {p : CStr}
  (agree : ∀ k, p.bytes <+: k → trieNodeSearch root k = M k)
include agree

theorem map_below_of_missing (missing : trieNodeFind root p.bytes = none) (k : List UInt8)
    (below : p.bytes <+: k) : M k = none := by
  obtain ⟨q, rfl⟩ := below
  rw [← agree _ ⟨q, rfl⟩]
  exact trieNodeSearch_of_missing missing q

theorem mem_entries_below_iff_map (keyed : NodeKeyed root) {m : TrieNode δ}
    (found : trieNodeFind root p.bytes = some m) (k : List UInt8) (d : δ) :
    (k, d) ∈ (trieNodeEntries m).map (fun e => (p.bytes ++ e.1, e.2)) ↔
      p.bytes <+: k ∧ M k = some d := by
  rw [mem_entries_below keyed found]
  constructor
  · rintro ⟨below, bound⟩
    exact ⟨below, agree k below ▸ bound⟩
  · rintro ⟨below, bound⟩
    exact ⟨below, (agree k below).trans bound⟩

theorem keys_below_of_missing (missing : trieNodeFind root p.bytes = none) :
    {k | p.bytes <+: k ∧ (M k).isSome} = ∅ := by
  ext k
  simp only [Set.mem_ofPred_eq, Set.mem_empty_iff_false, iff_false, not_and]
  intro below
  rw [map_below_of_missing agree missing k below]
  simp

theorem keys_below_eq_entries (keyed : NodeKeyed root) {m : TrieNode δ}
    (found : trieNodeFind root p.bytes = some m) :
    {k | p.bytes <+: k ∧ (M k).isSome} =
      ↑((trieNodeEntries m).map fun e => p.bytes ++ e.1).toFinset := by
  ext k
  simp only [Set.mem_ofPred_eq, Finset.mem_coe, List.mem_toFinset]
  constructor
  · rintro ⟨below, isSome⟩
    obtain ⟨d, bound⟩ := Option.isSome_iff_exists.mp isSome
    obtain ⟨e, entry, same⟩ := List.mem_map.mp
      ((mem_entries_below_iff_map agree keyed found k d).mpr ⟨below, bound⟩)
    exact List.mem_map.mpr ⟨e, entry, congrArg Prod.fst same⟩
  · intro mem
    obtain ⟨e, entry, rfl⟩ := List.mem_map.mp mem
    have pair := (mem_entries_below_iff_map agree keyed found _ e.2).mp
      (List.mem_map.mpr ⟨e, entry, rfl⟩)
    exact ⟨pair.1, by rw [pair.2]; rfl⟩

end Agree

theorem triePrefixCount_eq_ncard_of_agree {trie : Trie δ} {M : List UInt8 → Option δ} {p : CStr}
    (agree : ∀ k, p.bytes <+: k → trieNodeSearch trie.root k = M k) (keyed : NodeKeyed trie.root) :
    triePrefixCount trie p = {k | p.bytes <+: k ∧ (M k).isSome}.ncard := by
  cases found : trieNodeFind trie.root p.bytes with
  | none =>
    rw [keys_below_of_missing agree found]
    simp [triePrefixCount, found]
  | some m =>
    rw [keys_below_eq_entries agree keyed found, Set.ncard_coe_finset,
      List.toFinset_card_of_nodup (nodup_entries_below keyed found), List.length_map,
      ← trieNodeCount_eq_length]
    simp only [triePrefixCount, found]

section Runs

variable {destructor : Option (TrieDestructor δ)} (used : UsedDestructor destructor)
include used

theorem trieInv_of_trieStep {trie trie' : Trie δ} {op : TrieOp δ} (inv : TrieInv destructor trie)
    (step : trieStep trie op = some trie') : TrieInv destructor trie' := by
  obtain ⟨trie'', step', inv'⟩ := trieStep_keeps used trie op inv
  rw [step] at step'
  cases step'
  exact inv'

theorem run_nodeKeyed (ops : List (TrieOp δ)) (trie : Trie δ)
    (run : OpRun.run trieStep (trieNew destructor) ops = some trie) : NodeKeyed trie.root := by
  have keep := OpRun.run_preserves
    (fun t op t' (inv : TrieInv destructor t ∧ NodeKeyed t.root) step =>
      ⟨trieInv_of_trieStep used inv.1 step, nodeKeyed_trieStep inv.1.wf inv.2 step⟩)
    ops _ trie ⟨trieInv_trieNew destructor, nodeKeyed_trieCreateNode 0⟩ run
  exact keep.2

theorem run_trieNodeHeight_le (bound : Nat) (ops : List (TrieOp δ))
    (short : ∀ key data, TrieOp.insert key data ∈ ops → key.length ≤ bound) (trie : Trie δ)
    (run : OpRun.run trieStep (trieNew destructor) ops = some trie) :
    trieNodeHeight trie.root ≤ bound := by
  have keep := OpRun.run_preserves_of_forall
    (fun t op t' (fits : ∀ key data, op = TrieOp.insert key data → key.length ≤ bound)
      (inv : TrieInv destructor t ∧ trieNodeHeight t.root ≤ bound) step =>
      ⟨trieInv_of_trieStep used inv.1 step, trieNodeHeight_trieStep inv.1.wf step inv.2 fits⟩)
    ops _ trie (fun op mem key data same => short key data (same ▸ mem))
    ⟨trieInv_trieNew destructor, Nat.zero_le _⟩ run
  exact keep.2

theorem run_search (ops : List (TrieOp δ)) :
    ∃ trie, OpRun.run trieStep (trieNew destructor) ops = some trie ∧
      ∀ k, trieNodeSearch trie.root k = (ops.foldl trieMapStep fun _ => none) k := by
  obtain ⟨trie, run, -, map⟩ := OpRun.run_simulates (trieStep_keeps used) (trieStep_commutes used)
    ops _ (trieInv_trieNew destructor)
  have start : trieNodeSearch (trieNew destructor).root = fun _ => none :=
    trieNodeSearch_trieCreateNode 0
  refine ⟨trie, run, fun k => ?_⟩
  rw [map, start]

theorem run_search_of_ne_nil (ops : List (TrieOp δ)) :
    ∃ trie, OpRun.run trieStep (trieNew destructor) ops = some trie ∧
      ∀ k, k ≠ [] → trieNodeSearch trie.root k = (ops.foldl finiteMapStep fun _ => none) k := by
  obtain ⟨trie, run, map⟩ := run_search used ops
  exact ⟨trie, run, fun k nonempty => (map k).trans (foldl_trieMapStep_of_ne_nil ops (fun _ _ => rfl) k nonempty)⟩

end Runs

theorem triePrefixFind_refines_map (destructor : Option (TrieDestructor δ))
    (used : UsedDestructor destructor) (ops : List (TrieOp δ))
    (short : ∀ key data, TrieOp.insert key data ∈ ops → key.length < 32)
    (p : CStr) (nonempty : 0 < p.length) :
    ∃ trie r, OpRun.run trieStep (trieNew destructor) ops = some trie ∧
      triePrefixFind trie p = some r ∧
      (r = none ↔ trieNodeFind trie.root p.bytes = none) ∧
      (r = none → ∀ k, p.bytes <+: k → (ops.foldl finiteMapStep fun _ => none) k = none) ∧
      ∀ v, r = some v → (v.items.map fun kv => kv.key.bytes).Nodup ∧
        ∀ k d, (∃ kv ∈ v.items, kv.key.bytes = k ∧ kv.data = d) ↔
          p.bytes <+: k ∧ (ops.foldl finiteMapStep fun _ => none) k = some d := by
  obtain ⟨trie, run, map⟩ := run_search_of_ne_nil used ops
  have keyed := run_nodeKeyed used ops trie run
  have high := run_trieNodeHeight_le used 31 ops (fun key data mem => by
    have := short key data mem
    omega) trie run
  have agree : ∀ k, p.bytes <+: k → trieNodeSearch trie.root k = (ops.foldl finiteMapStep fun _ => none) k :=
    fun k below => map k (ne_nil_of_below nonempty below)
  rcases triePrefixFind_spec keyed high p nonempty with ⟨missing, result⟩ |
    ⟨m, v, found, result, pairs⟩
  · exact ⟨trie, none, run, result, by simp [missing],
      fun _ => map_below_of_missing agree missing, by simp⟩
  · refine ⟨trie, some v, run, result, by simp [found], by simp, ?_⟩
    intro v' same
    cases same
    have keys : (v.items.map fun kv => kv.key.bytes) =
        (trieNodeEntries m).map fun e => p.bytes ++ e.1 := by
      have := congrArg (List.map Prod.fst) pairs
      simpa [kvPairs, List.map_map, Function.comp_def] using this
    refine ⟨keys ▸ nodup_entries_below keyed found, fun k d => ?_⟩
    have member : (∃ kv ∈ v.items, kv.key.bytes = k ∧ kv.data = d) ↔ (k, d) ∈ kvPairs v := by
      simp [kvPairs]
    rw [member, pairs, mem_entries_below_iff_map agree keyed found]


/-- A prefix of 32 bytes or more that a node spells overflows the 32-byte
buffer `str` in the `memcpy`, while the map holds the key. -/
theorem triePrefixFind_overflows_long_prefix :
    ∃ trie, OpRun.run trieStep (trieNew none)
        [TrieOp.insert ⟨List.replicate 32 97, by decide⟩ (1 : Nat)] = some trie ∧
      triePrefixFind trie ⟨List.replicate 32 97, by decide⟩ = none ∧
      ([TrieOp.insert ⟨List.replicate 32 97, by decide⟩ (1 : Nat)].foldl finiteMapStep
        fun _ => none) (List.replicate 32 97) = some 1 :=
  ⟨_, rfl, rfl, by simp [finiteMapStep]⟩

/-- The walk reports keys in the pre-order of the children trees: after `"xb"`
and then `"xa"`, the node of `'b'` is the root of the children of `"x"` and
`"xb"` comes first. -/
theorem triePrefixFind_preorder :
    ∃ trie, OpRun.run trieStep (trieNew none)
        [TrieOp.insert ⟨[120, 98], by decide⟩ (1 : Nat), .insert ⟨[120, 97], by decide⟩ 2] =
          some trie ∧
      (triePrefixFind trie ⟨[120], by decide⟩).map (Option.map fun v => v.items.map (·.key.bytes)) =
        some (some [[120, 98], [120, 97]]) ∧
      ([120, 97] : List UInt8) < [120, 98] :=
  ⟨_, rfl, rfl, by decide⟩

/-- After any run from `trie_new`, for every prefix, `trie_prefix_count` is 0
when no walk spells the prefix, and it is the number of keys the prefix starts
in the map that keeps the empty key once bound; below a non-empty prefix that
map and the one whose delete removes every key agree. -/
theorem triePrefixCount_eq_ncard (destructor : Option (TrieDestructor δ))
    (used : UsedDestructor destructor) (ops : List (TrieOp δ)) :
    ∃ trie, OpRun.run trieStep (trieNew destructor) ops = some trie ∧
      ∀ p : CStr, (trieNodeFind trie.root p.bytes = none → triePrefixCount trie p = 0) ∧
        triePrefixCount trie p =
          {k | p.bytes <+: k ∧ ((ops.foldl trieMapStep fun _ => none) k).isSome}.ncard ∧
        (0 < p.length → triePrefixCount trie p =
          {k | p.bytes <+: k ∧ ((ops.foldl finiteMapStep fun _ => none) k).isSome}.ncard) := by
  obtain ⟨trie, run, map⟩ := run_search used ops
  have keyed := run_nodeKeyed used ops trie run
  refine ⟨trie, run, fun p => ⟨fun missing => by simp [triePrefixCount, missing],
    triePrefixCount_eq_ncard_of_agree (fun k _ => map k) keyed, fun nonempty => ?_⟩⟩
  exact triePrefixCount_eq_ncard_of_agree (fun k below => (map k).trans
    (foldl_trieMapStep_of_ne_nil ops (fun _ _ => rfl) k (ne_nil_of_below nonempty below))) keyed

theorem triePrefixCount_eq_ncard_ab :
    UsedDestructor (none : Option (TrieDestructor Nat)) ∧
      ∃ trie, OpRun.run trieStep (trieNew none) [TrieOp.insert ⟨[97, 98], by decide⟩ (1 : Nat)] =
          some trie ∧
        ∀ p : CStr, (trieNodeFind trie.root p.bytes = none → triePrefixCount trie p = 0) ∧
          triePrefixCount trie p =
            {k | p.bytes <+: k ∧ (([TrieOp.insert ⟨[97, 98], by decide⟩ (1 : Nat)].foldl
              trieMapStep fun _ => none) k).isSome}.ncard ∧
          (0 < p.length → triePrefixCount trie p =
            {k | p.bytes <+: k ∧ (([TrieOp.insert ⟨[97, 98], by decide⟩ (1 : Nat)].foldl
              finiteMapStep fun _ => none) k).isSome}.ncard) :=
  ⟨Or.inl rfl, triePrefixCount_eq_ncard none (Or.inl rfl) _⟩

/-- The count of the empty prefix takes in the empty key, which `trie_delete`
refuses to remove and the map has dropped. -/
theorem triePrefixCount_counts_kept_empty_key :
    ∃ trie, OpRun.run trieStep (trieNew none)
        [TrieOp.insert CStr.empty (1 : Nat), .delete CStr.empty] = some trie ∧
      triePrefixCount trie CStr.empty = 1 ∧
      {k | CStr.empty.bytes <+: k ∧ (([TrieOp.insert CStr.empty (1 : Nat), .delete CStr.empty].foldl
        finiteMapStep fun _ => none) k).isSome}.ncard = 0 := by
  refine ⟨_, rfl, rfl, ?_⟩
  have empty : {k | CStr.empty.bytes <+: k ∧ (([TrieOp.insert CStr.empty (1 : Nat),
      .delete CStr.empty].foldl finiteMapStep fun _ => none) k).isSome} = ∅ := by
    ext k
    by_cases root : k = CStr.empty.bytes <;> simp [finiteMapStep, root]
  rw [empty, Set.ncard_empty]

end TrieDB
