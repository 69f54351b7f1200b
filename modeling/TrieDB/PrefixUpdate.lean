import TrieDB.Db
import TrieDB.TrieEntries

/-!
The prefix updates of `db.c`. `database_prefix_set`, `database_prefix_ttl`,
`database_prefix_inc` and `database_prefix_dec` walk the subtree of the node
of the prefix and rewrite every item they meet. A trie holds an item at each
of its entries, so on a database whose trie holds every item once, and only
live ones, a walk rewrites the item of each key the prefix starts exactly once
and leaves every other key's item as it was.
-/
namespace TrieDB

section Items
variable {δ : Type}

mutual
theorem childrenItems_perm :
    ∀ t : BstNode (TrieNode δ), (childrenItems t).Perm ((childrenEntries t).map Prod.snd)
  | .nil => List.Perm.refl _
  | .node _ _ left right child => by
    rw [childrenItems, childrenEntries, List.map_append, List.map_append, List.map_map]
    exact ((trieNodeItems_perm child).append (childrenItems_perm left)).append
      (childrenItems_perm right)

theorem trieNodeItems_perm :
    ∀ n : TrieNode δ, (trieNodeItems n).Perm ((trieNodeEntries n).map Prod.snd)
  | ⟨_, children, data⟩ => by
    rw [trieNodeItems, trieNodeEntries, List.map_append, List.map_map]
    have own : data.toList.map (Prod.snd ∘ fun d => (([] : List UInt8), d)) = data.toList := by
      simp [Function.comp_def]
    rw [own]
    exact List.perm_append_comm.trans ((childrenItems_perm children).append_left data.toList)
end

theorem childrenEntries_sublist {t : BstNode (TrieNode δ)} {c : UInt8} {child : TrieNode δ}
    (mem : (c, child) ∈ t.inorder) :
    List.Sublist ((trieNodeEntries child).map fun e => (c :: e.1, e.2)) (childrenEntries t) := by
  induction t with
  | nil => cases mem
  | node c' h left right child' ihl ihr =>
    simp only [BstNode.inorder, List.mem_append, List.mem_cons, Prod.mk.injEq] at mem
    rw [childrenEntries]
    rcases mem with inLeft | ⟨rfl, rfl⟩ | inRight
    · exact (ihl inLeft).trans
        ((List.sublist_append_right _ _).trans (List.sublist_append_left _ _))
    · exact (List.sublist_append_left _ _).trans (List.sublist_append_left _ _)
    · exact (ihr inRight).trans (List.sublist_append_right _ _)

theorem trieNodeEntries_sublist_of_find :
    ∀ (p : List UInt8) (root node : TrieNode δ), trieNodeFind root p = some node →
      List.Sublist ((trieNodeEntries node).map fun e => (p ++ e.1, e.2)) (trieNodeEntries root)
  | [], root, node, found => by
    cases found
    simp
  | c :: p, ⟨chr, children, data⟩, node, found => by
    rw [trieNodeFind_cons] at found
    obtain ⟨child, hchild, rest⟩ := Option.bind_eq_some_iff.mp found
    have below : List.Sublist ((trieNodeEntries node).map fun e => (c :: p ++ e.1, e.2))
        ((trieNodeEntries child).map fun e => (c :: e.1, e.2)) := by
      simpa [List.map_map, Function.comp_def] using
        (trieNodeEntries_sublist_of_find p child node rest).map fun e => (c :: e.1, e.2)
    exact below.trans ((childrenEntries_sublist (mem_inorder_of_bstFind hchild)).trans
      (List.sublist_append_right _ _))

theorem prefix_of_mem_trieNodeItems {root node : TrieNode δ} {p : List UInt8}
    (distinct : (trieNodeItems root).Nodup) (found : trieNodeFind root p = some node)
    {k : List UInt8} {d : δ} (bound : trieNodeSearch root k = some d) (mem : d ∈ trieNodeItems node) :
    p <+: k := by
  have unique := ((trieNodeItems_perm root).nodup_iff.mp distinct)
  obtain ⟨e, entry, rfl⟩ := List.mem_map.mp ((trieNodeItems_perm node).subset mem)
  have lifted : (p ++ e.1, e.2) ∈ trieNodeEntries root :=
    (trieNodeEntries_sublist_of_find p root node found).subset (List.mem_map.mpr ⟨e, entry, rfl⟩)
  have same := List.inj_on_of_nodup_map unique lifted
    (mem_trieNodeEntries_of_search k root e.2 bound) rfl
  exact ⟨e.1, congrArg Prod.fst same⟩

theorem trieNodeItems_nodup_of_find {root node : TrieNode δ} {p : List UInt8}
    (distinct : (trieNodeItems root).Nodup) (found : trieNodeFind root p = some node) :
    (trieNodeItems node).Nodup := by
  have lifted := (trieNodeEntries_sublist_of_find p root node found).map Prod.snd
  rw [List.map_map] at lifted
  exact (trieNodeItems_perm node).nodup_iff.mpr
    (((trieNodeItems_perm root).nodup_iff.mp distinct).sublist lifted)

theorem mem_trieNodeItems_of_find {root node : TrieNode δ} {p : List UInt8}
    (found : trieNodeFind root p = some node) {d : δ} (mem : d ∈ trieNodeItems node) :
    d ∈ trieNodeItems root := by
  obtain ⟨e, entry, rfl⟩ := List.mem_map.mp ((trieNodeItems_perm node).subset mem)
  have lifted : (p ++ e.1, e.2) ∈ trieNodeEntries root :=
    (trieNodeEntries_sublist_of_find p root node found).subset (List.mem_map.mpr ⟨e, entry, rfl⟩)
  exact (trieNodeItems_perm root).symm.subset (List.mem_map.mpr ⟨_, lifted, rfl⟩)

theorem mem_trieNodeItems_of_search {n : TrieNode δ} {k : List UInt8} {d : δ}
    (bound : trieNodeSearch n k = some d) : d ∈ trieNodeItems n :=
  (trieNodeItems_perm n).symm.subset
    (List.mem_map.mpr ⟨(k, d), mem_trieNodeEntries_of_search k n d bound, rfl⟩)

end Items

section Walk
variable (nodeFirst : Bool) (f : DbItem → DbItem)

theorem itemMod_spec (items : SlotHeap DbItem) (data : Option Nat)
    (live : ∀ a ∈ data.toList, (items.load a).isSome) :
    ∃ items', itemMod f items data = some items' ∧ items.ModifiedOn f data.toList items' := by
  cases data with
  | none => exact ⟨items, rfl, SlotHeap.ModifiedOn.nil items⟩
  | some a =>
    obtain ⟨items', done⟩ := SlotHeap.modify_isSome f (live a (by simp))
    exact ⟨items', done, SlotHeap.ModifiedOn.of_modify done⟩

-- The walks visit a subtree in different orders, which a rewrite of distinct
-- slots does not see: each spec is stated over the items `childrenItems` and
-- `trieNodeItems` list, and the parts are put together with `of_mem_iff`.
mutual
theorem bstNodeItemsMod_spec : ∀ (t : BstNode (TrieNode Nat)) (items : SlotHeap DbItem),
    (childrenItems t).Nodup → (∀ a ∈ childrenItems t, (items.load a).isSome) →
      ∃ items', bstNodeItemsMod nodeFirst f t items = some items' ∧
        items.ModifiedOn f (childrenItems t) items'
  | .nil, items, _, _ => ⟨items, rfl, SlotHeap.ModifiedOn.nil items⟩
  | .node _ _ left right data, items, distinct, live => by
    rw [childrenItems, List.nodup_append, List.nodup_append] at distinct
    obtain ⟨⟨ownD, leftD, ownLeft⟩, rightD, beforeRight⟩ := distinct
    simp only [childrenItems, List.mem_append] at live
    obtain ⟨items₁, leftDone, leftMod⟩ := bstNodeItemsMod_spec left items leftD
      (fun a mem => live a (.inl (.inr mem)))
    obtain ⟨items₂, rightDone, rightMod⟩ := bstNodeItemsMod_spec right items₁ rightD
      (fun a mem => by rw [leftMod.isSome_load]; exact live a (.inr mem))
    obtain ⟨items₃, ownDone, ownMod⟩ := trieNodeItemsMod_spec data items₂ ownD
      (fun a mem => by
        rw [rightMod.isSome_load, leftMod.isSome_load]
        exact live a (.inl (.inl mem)))
    have leftRight := leftMod.append rightMod
      (fun b inRight inLeft => beforeRight b (List.mem_append_right _ inLeft) b inRight rfl)
    have all := leftRight.append ownMod (fun b own mem => by
      rcases List.mem_append.mp mem with inLeft | inRight
      · exact ownLeft b own b inLeft rfl
      · exact beforeRight b (List.mem_append_left _ own) b inRight rfl)
    refine ⟨items₃, ?_, all.of_mem_iff fun b => ?_⟩
    · simp only [bstNodeItemsMod, Option.bind_eq_bind, leftDone, rightDone, Option.bind_some, ownDone]
    · simp only [childrenItems, List.mem_append, or_assoc, or_left_comm, or_comm]

theorem trieNodeItemsMod_spec : ∀ (n : TrieNode Nat) (items : SlotHeap DbItem),
    (trieNodeItems n).Nodup → (∀ a ∈ trieNodeItems n, (items.load a).isSome) →
      ∃ items', trieNodeItemsMod nodeFirst f n items = some items' ∧
        items.ModifiedOn f (trieNodeItems n) items'
  | ⟨_, children, data⟩, items, distinct, live => by
    rw [trieNodeItems, List.nodup_append] at distinct
    obtain ⟨childrenD, -, apart⟩ := distinct
    simp only [trieNodeItems, List.mem_append] at live
    by_cases first : nodeFirst = true
    · -- `trie_node_integer_mod`: the node's item, then the children
      obtain ⟨items₁, ownDone, ownMod⟩ := itemMod_spec f items data (fun a mem => live a (.inr mem))
      obtain ⟨items₂, childrenDone, childrenMod⟩ := bstNodeItemsMod_spec children items₁ childrenD
        (fun a mem => by rw [ownMod.isSome_load]; exact live a (.inl mem))
      have all := ownMod.append childrenMod (fun b mem own => apart b mem b own rfl)
      refine ⟨items₂, ?_, all.of_mem_iff fun b => ?_⟩
      · rw [first] at childrenDone
        simp only [trieNodeItemsMod, first, if_true, Option.bind_eq_bind, ownDone, Option.bind_some,
          childrenDone]
      · simp only [trieNodeItems, List.mem_append]
        exact or_comm
    · -- `trie_node_prefix_set` and `trie_node_prefix_ttl`: the children first
      obtain ⟨items₁, childrenDone, childrenMod⟩ := bstNodeItemsMod_spec children items childrenD
        (fun a mem => live a (.inl mem))
      obtain ⟨items₂, ownDone, ownMod⟩ := itemMod_spec f items₁ data
        (fun a mem => by rw [childrenMod.isSome_load]; exact live a (.inr mem))
      refine ⟨items₂, ?_, childrenMod.append ownMod (fun b own mem => apart b mem b own rfl)⟩
      rw [Bool.not_eq_true] at first
      rw [first] at childrenDone
      simp only [trieNodeItemsMod, first, Bool.false_eq_true, if_false, Option.bind_eq_bind,
        childrenDone, Option.bind_some, ownDone]
end

theorem itemMod_isSome_load {items items' : SlotHeap DbItem} {data : Option Nat}
    (done : itemMod f items data = some items') (b : Nat) :
    (items'.load b).isSome = (items.load b).isSome := by
  cases data with
  | none =>
    cases done
    rfl
  | some a => exact (SlotHeap.ModifiedOn.of_modify done).isSome_load b

-- A walk only rewrites items in place: whichever items it meets, every slot
-- stays live or dead as it was.
mutual
theorem bstNodeItemsMod_isSome_load : ∀ (t : BstNode (TrieNode Nat)) {items items' : SlotHeap DbItem},
    bstNodeItemsMod nodeFirst f t items = some items' →
      ∀ b, (items'.load b).isSome = (items.load b).isSome
  | .nil, _, _, done, _ => by
    cases done
    rfl
  | .node _ _ left right data, _, _, done, b => by
    simp only [bstNodeItemsMod, Option.bind_eq_bind, Option.bind_eq_some_iff] at done
    obtain ⟨_, leftDone, _, rightDone, dataDone⟩ := done
    rw [trieNodeItemsMod_isSome_load data dataDone b, bstNodeItemsMod_isSome_load right rightDone b,
      bstNodeItemsMod_isSome_load left leftDone b]

theorem trieNodeItemsMod_isSome_load : ∀ (n : TrieNode Nat) {items items' : SlotHeap DbItem},
    trieNodeItemsMod nodeFirst f n items = some items' →
      ∀ b, (items'.load b).isSome = (items.load b).isSome
  | ⟨_, children, data⟩, _, _, done, b => by
    unfold trieNodeItemsMod at done
    split_ifs at done
    · obtain ⟨_, dataDone, childrenDone⟩ := Option.bind_eq_some_iff.mp done
      rw [bstNodeItemsMod_isSome_load children childrenDone b, itemMod_isSome_load f dataDone b]
    · obtain ⟨_, childrenDone, dataDone⟩ := Option.bind_eq_some_iff.mp done
      rw [itemMod_isSome_load f dataDone b, bstNodeItemsMod_isSome_load children childrenDone b]
end

theorem databasePrefixMod_isSome_load {items items' : SlotHeap DbItem} {db : Database} {pfx : CStr}
    (done : databasePrefixMod nodeFirst f items db pfx = some items') (b : Nat) :
    (items'.load b).isSome = (items.load b).isSome := by
  unfold databasePrefixMod at done
  split at done
  · cases done
    rfl
  · exact trieNodeItemsMod_isSome_load nodeFirst f _ done b

theorem databasePrefixMod_spec (items : SlotHeap DbItem) (db : Database) (pfx : CStr)
    (distinct : (trieNodeItems db.data.root).Nodup)
    (live : ∀ a ∈ trieNodeItems db.data.root, (items.load a).isSome) :
    ∃ items', databasePrefixMod nodeFirst f items db pfx = some items' ∧
      ∀ k, (trieNodeSearch db.data.root k).bind items'.load =
        if pfx.bytes <+: k then ((trieNodeSearch db.data.root k).bind items.load).map f
        else (trieNodeSearch db.data.root k).bind items.load := by
  cases found : trieNodeFind db.data.root pfx.bytes with
  | none =>
    refine ⟨items, by simp [databasePrefixMod, found], fun k => ?_⟩
    split_ifs with below
    · obtain ⟨q, rfl⟩ := below
      rw [trieNodeSearch_of_missing found q]
      rfl
    · rfl
  | some m =>
    obtain ⟨items', done, mod⟩ := trieNodeItemsMod_spec nodeFirst f m items
      (trieNodeItems_nodup_of_find distinct found) (fun a mem => live a (mem_trieNodeItems_of_find found mem))
    refine ⟨items', by simp [databasePrefixMod, found, done], fun k => ?_⟩
    cases bound : trieNodeSearch db.data.root k with
    | none => simp
    | some a =>
      simp only [Option.bind_some]
      rw [mod a]
      by_cases below : pfx.bytes <+: k
      · obtain ⟨q, rfl⟩ := below
        have shift : trieNodeSearch m q = some a := by
          rw [← below_trieNodeSearch found]
          exact bound
        simp [mem_trieNodeItems_of_search shift]
      · have outside : a ∉ trieNodeItems m := fun mem =>
          below (prefix_of_mem_trieNodeItems distinct found bound mem)
        simp [outside, below]

end Walk

/-- The four prefix updates of `db.c` and their arguments. -/
inductive PrefixUpdate where
  | set (val : CStr) (ttl : Int16)
  | ttl (ttl : Int16)
  | inc
  | dec

namespace PrefixUpdate

/-- The function of `db.c` that makes the update. -/
def run : PrefixUpdate → SlotHeap DbItem → Database → CStr → Int → Option (SlotHeap DbItem)
  | set val t, items, db, pfx, now => databasePrefixSet items db pfx val t now
  | .ttl t, items, db, pfx, now => databasePrefixTtl items db pfx t now
  | inc, items, db, pfx, now => databasePrefixInc items db pfx now
  | dec, items, db, pfx, now => databasePrefixDec items db pfx now

/-- What an update is to do to each item it reaches, marking it seen now:
`set` stores a copy of `val` and the TTL, `ttl` the TTL, and `inc` and `dec`
step a value that is an integer and leave any other alone. -/
def rule : PrefixUpdate → Int → DbItem → DbItem
  | set val t, now, item => { item with data := val, ttl := t, lstime := now }
  | .ttl t, now, item => { item with ttl := t, lstime := now }
  | inc, now, item =>
    if isInteger item.data then { item with data := formatInt (parseInt item.data + 1), lstime := now }
    else item
  | dec, now, item =>
    if isInteger item.data then { item with data := formatInt (parseInt item.data - 1), lstime := now }
    else item

theorem run_eq_databasePrefixMod (op : PrefixUpdate) (items : SlotHeap DbItem) (db : Database)
    (pfx : CStr) (now : Int) :
    ∃ nodeFirst, op.run items db pfx now = databasePrefixMod nodeFirst (op.rule now) items db pfx := by
  cases op with
  | set val t => exact ⟨false, rfl⟩
  | ttl t => exact ⟨false, rfl⟩
  | inc => exact ⟨true, rfl⟩
  | dec => exact ⟨true, rfl⟩

end PrefixUpdate

/-- `database_prefix_inc` of `"a"` over the key `"a"` holding `"2147483647"`,
`INT_MAX`: `parse_int` reads it into an `int`, the `+ 1` overflows, and the
item stores `"-2147483648"`. -/
theorem databasePrefixInc_wraps_at_int_max :
    (databasePrefixInc ⟨[some ⟨-1, ⟨[50, 49, 52, 55, 52, 56, 51, 54, 52, 55], by decide⟩, 0, 0⟩]⟩
        ⟨CStr.empty, ⟨none, ⟨0, .node 97 1 .nil .nil ⟨97, .nil, some 0⟩, none⟩, 1⟩⟩ ⟨[97], by decide⟩ 5).map
        (fun items => (items.load 0).map (·.data.bytes)) =
      some (some [45, 50, 49, 52, 55, 52, 56, 51, 54, 52, 56]) := by
  decide

end TrieDB
