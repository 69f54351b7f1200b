import TrieDB.Server
import TrieDB.VectorSort

/-!
The expiry of keys: `expire_keys` of `server.c` over `triedb.expiring_keys`,
and the order `ttl_handler` keeps that vector in through `vector_qsort` and
`compare_ttl`.
-/
namespace TrieDB

/-- Two keys with a TTL of 0 expire together: the sweep deletes the first, and
`vector_delete` moves the second to the index the loop has just passed, so it
stays in `expiring_keys` and in its trie although it has expired. -/
theorem expireKeys_skips_adjacent_expired :
    ∃ srv, (startState.bind fun s =>
        OpRun.run (serverStep ⟨CStr.empty, 0, 0, 0, CStr.empty, CStr.empty, CStr.empty, 0, 0, 0, 0⟩
          ⟨0, 0, 0, 0, 0, 0, 0, 0⟩) s
          [.accept, .request 0 0 0 (.put 0x10 (-1) (CStr.ofBytes [97]) (CStr.ofBytes [49])),
            .request 0 0 0 (.put 0x10 (-1) (CStr.ofBytes [98]) (CStr.ofBytes [50])),
            .request 0 0 0 (.ttl 0x40 0 (CStr.ofBytes [97])),
            .request 0 0 0 (.ttl 0x40 0 (CStr.ofBytes [98])),
            .expire 1]) = some srv ∧
      srv.triedb.expiringKeys.items.map
          (fun ek => (ek.key.bytes, (srv.triedb.items.load ek.item).map (·.delta 1))) =
        [([98], some (-1))] ∧
      ((srv.triedb.database 0).bind fun db => trieNodeSearch db.data.root [98]).isSome = true :=
  ⟨_, rfl, rfl, rfl⟩

theorem compareTtl_iff {items : SlotHeap DbItem} {now : Int} {a b : ExpiringKey} {n1 n2 : DbItem}
    (load1 : items.load a.item = some n1) (load2 : items.load b.item = some n2) :
    compareTtl items now a b = true ↔ n1.ctime + n1.ttl.toInt ≤ n2.ctime + n2.ttl.toInt := by
  simp only [compareTtl, load1, load2, decide_eq_true_eq]
  simp only [DbItem.delta]
  omega

theorem compareTtl_totalPreorderOn (items : SlotHeap DbItem) (now : Int) (eks : List ExpiringKey)
    (live : ∀ ek ∈ eks, (items.load ek.item).isSome) :
    TotalPreorderOn (compareTtl items now) (· ∈ eks) := by
  have item_of : ∀ ek ∈ eks, ∃ n, items.load ek.item = some n := fun ek mem =>
    Option.isSome_iff_exists.mp (live ek mem)
  constructor
  · intro a mem
    obtain ⟨n, load⟩ := item_of a mem
    exact (compareTtl_iff load load).mpr le_rfl
  · intro a b c mem_a mem_b mem_c ab bc
    obtain ⟨n1, load1⟩ := item_of a mem_a
    obtain ⟨n2, load2⟩ := item_of b mem_b
    obtain ⟨n3, load3⟩ := item_of c mem_c
    rw [compareTtl_iff load1 load2] at ab
    rw [compareTtl_iff load2 load3] at bc
    exact (compareTtl_iff load1 load3).mpr (le_trans ab bc)
  · intro a b mem_a mem_b
    obtain ⟨n1, load1⟩ := item_of a mem_a
    obtain ⟨n2, load2⟩ := item_of b mem_b
    rw [compareTtl_iff load1 load2, compareTtl_iff load2 load1]
    exact le_total _ _

/-- With every entry live, `ttl_handler`'s sort leaves `expiring_keys` permuted
and in the order of the deadlines. -/
theorem sortExpiringKeys_sorted (items : SlotHeap DbItem) (now : Int) (eks : Vector ExpiringKey)
    (live : ∀ ek ∈ eks.items, (items.load ek.item).isSome) :
    ∃ v', sortExpiringKeys items now eks = some v' ∧ v'.items.Perm eks.items ∧
      v'.items.Pairwise (compareTtl items now · · = true) ∧ v'.maxsize = eks.maxsize := by
  have checked : eks.items.any (fun ek => (items.load ek.item).isNone) = false := by
    rw [List.any_eq_false]
    intro ek mem
    simpa [Option.isSome_iff_ne_none] using live ek mem
  simp only [sortExpiringKeys, checked, Bool.false_eq_true, and_false, if_false]
  exact vectorQsort_sorted_perm eks (compareTtl_totalPreorderOn items now eks.items live)

theorem sortExpiringKeys_sorted_ab :
    (∀ ek ∈ ([⟨0, 0, CStr.ofBytes [97]⟩, ⟨0, 1, CStr.ofBytes [98]⟩] : List ExpiringKey),
        ((⟨[some ⟨5, CStr.ofBytes [49], 0, 0⟩, some ⟨2, CStr.ofBytes [50], 0, 0⟩]⟩ : SlotHeap DbItem).load
          ek.item).isSome) ∧
      ∃ v', sortExpiringKeys ⟨[some ⟨5, CStr.ofBytes [49], 0, 0⟩, some ⟨2, CStr.ofBytes [50], 0, 0⟩]⟩ 0
          ⟨[⟨0, 0, CStr.ofBytes [97]⟩, ⟨0, 1, CStr.ofBytes [98]⟩], 4⟩ = some v' ∧
        v'.items.Perm [⟨0, 0, CStr.ofBytes [97]⟩, ⟨0, 1, CStr.ofBytes [98]⟩] ∧
        v'.items.Pairwise (compareTtl ⟨[some ⟨5, CStr.ofBytes [49], 0, 0⟩, some ⟨2, CStr.ofBytes [50], 0, 0⟩]⟩
          0 · · = true) ∧ v'.maxsize = 4 :=
  ⟨by decide, sortExpiringKeys_sorted _ 0 ⟨[⟨0, 0, CStr.ofBytes [97]⟩, ⟨0, 1, CStr.ofBytes [98]⟩], 4⟩
    (by decide)⟩

theorem vectorQsort_sorts_by_deadline :
    (∀ {α : Type} (v : Vector α) (cmp : α → α → Bool), TotalPreorderOn cmp (· ∈ v.items) →
      ∃ v', vectorQsort v cmp = some v' ∧ v'.items.Perm v.items ∧ v'.items.Pairwise (cmp · · = true)) ∧
    (∀ (items : SlotHeap DbItem) (now : Int) (eks : List ExpiringKey),
      (∀ ek ∈ eks, (items.load ek.item).isSome) →
      TotalPreorderOn (compareTtl items now) (· ∈ eks) ∧
      ∀ a b n1 n2, items.load a.item = some n1 → items.load b.item = some n2 →
        (compareTtl items now a b = true ↔ n1.ctime + n1.ttl.toInt ≤ n2.ctime + n2.ttl.toInt)) := by
  refine ⟨fun v cmp order => ?_, fun items now eks live => ?_⟩
  · obtain ⟨v', sorted, perm, ordered, _⟩ := vectorQsort_sorted_perm v order
    exact ⟨v', sorted, perm, ordered⟩
  · exact ⟨compareTtl_totalPreorderOn items now eks live, fun _ _ _ _ load1 load2 => compareTtl_iff load1 load2⟩

theorem vectorQsort_sorts_by_deadline_2121 :
    TotalPreorderOn (fun a b : Nat => decide (a ≤ b)) (· ∈ [2, 1, 2, 1]) ∧
      ∃ v', vectorQsort ⟨[2, 1, 2, 1], 4⟩ (fun a b : Nat => decide (a ≤ b)) = some v' ∧
        v'.items.Perm [2, 1, 2, 1] ∧ v'.items.Pairwise (fun a b => decide (a ≤ b) = true) := by
  have order : TotalPreorderOn (fun a b : Nat => decide (a ≤ b)) (· ∈ [2, 1, 2, 1]) :=
    ⟨fun _ _ => by simp, fun _ _ _ _ _ _ ab bc => by simp at ab bc ⊢; omega,
      fun a b _ _ => by simp; omega⟩
  exact ⟨order, vectorQsort_sorts_by_deadline.1 _ _ order⟩

end TrieDB
