import Mathlib.Data.List.Sort
import TrieDB.Library.SlotHeap

/-!
Singly linked cells in a `SlotHeap`: each cell holds a datum and the address of
the next cell, `none` ending the list. `Path h p cells q` says that following
the links from `p` visits `cells`, pairs of an address and its datum, and then
reaches `q`; a chain is a path that reaches `none`. A chain never repeats an
address, so it is no longer than the heap, which is what bounds the loops over
it. The halving merge sort at the end is the order that a merge sort of linked
cells, which cuts the list after its first half, produces.
-/

structure Cell (α : Type) where
  data : α
  next : Option Nat
  deriving DecidableEq, Repr

namespace SlotHeap
variable {α : Type}

def setNext (h : SlotHeap (Cell α)) (a : Nat) (next : Option Nat) : Option (SlotHeap (Cell α)) :=
  h.modify a fun c => { c with next }

theorem load_setNext {h h' : SlotHeap (Cell α)} {a : Nat} {next : Option Nat}
    (done : h.setNext a next = some h') (b : Nat) :
    h'.load b = if b = a then (h.load a).map fun c => { c with next } else h.load b :=
  load_modify done b

theorem setNext_of_load {h : SlotHeap (Cell α)} {a : Nat} {c : Cell α} (loaded : h.load a = some c)
    (next : Option Nat) : ∃ h', h.setNext a next = some h' :=
  modify_isSome _ (by simp [loaded])

def SameOutside (h h' : SlotHeap α) (as : List Nat) : Prop :=
  ∀ b, b ∉ as → h'.load b = h.load b

namespace SameOutside
variable {β : Type} {h₁ h₂ h₃ : SlotHeap β} {as bs : List Nat}

theorem refl (h : SlotHeap β) (as : List Nat) : SameOutside h h as := fun _ _ => rfl

theorem trans (first : SameOutside h₁ h₂ as) (second : SameOutside h₂ h₃ as) : SameOutside h₁ h₃ as :=
  fun b outside => (second b outside).trans (first b outside)

theorem mono (same : SameOutside h₁ h₂ as) (sub : ∀ a ∈ as, a ∈ bs) : SameOutside h₁ h₂ bs :=
  fun b outside => same b fun mem => outside (sub b mem)

end SameOutside

theorem sameOutside_setNext {h h' : SlotHeap (Cell α)} {a : Nat} {next : Option Nat}
    (done : h.setNext a next = some h') : SameOutside h h' [a] := fun b outside => by
  rw [load_setNext done, if_neg (by simpa using outside)]

theorem length_le_of_live {β : Type} {h : SlotHeap β} {as : List Nat} (nodup : as.Nodup)
    (live : ∀ a ∈ as, (h.load a).isSome) : as.length ≤ h.slots.length := by
  have inside : as ⊆ List.range h.slots.length := fun a mem => by
    obtain ⟨_, loaded⟩ := Option.isSome_iff_exists.mp (live a mem)
    exact List.mem_range.mpr (lt_of_load loaded)
  simpa using List.Nodup.length_le_of_subset nodup inside

inductive Path (h : SlotHeap (Cell α)) : Option Nat → List (Nat × α) → Option Nat → Prop
  | nil (p : Option Nat) : Path h p [] p
  | cons {a : Nat} {d : α} {next q : Option Nat} {cells : List (Nat × α)} :
      h.load a = some ⟨d, next⟩ → Path h next cells q → Path h (some a) ((a, d) :: cells) q

def Chain (h : SlotHeap (Cell α)) (p : Option Nat) (cells : List (Nat × α)) : Prop :=
  Path h p cells none

def addrAt (cells : List (Nat × α)) (q : Option Nat) (i : Nat) : Option Nat :=
  match cells[i]? with
  | some c => some c.1
  | none => q

theorem addrAt_of_length_le {cells : List (Nat × α)} {i : Nat} (past : cells.length ≤ i) (q : Option Nat) :
    addrAt cells q i = q := by
  simp [addrAt, List.getElem?_eq_none past]

namespace Path
variable {h h' : SlotHeap (Cell α)} {p q r : Option Nat} {cells cells₁ cells₂ : List (Nat × α)}

@[simp] theorem nil_iff : Path h p [] q ↔ p = q :=
  ⟨fun | .nil _ => rfl, fun same => same ▸ .nil p⟩

theorem cons_iff {a : Nat} {d : α} :
    Path h p ((a, d) :: cells) q ↔ p = some a ∧ ∃ next, h.load a = some ⟨d, next⟩ ∧ Path h next cells q :=
  ⟨fun | .cons loaded rest => ⟨rfl, _, loaded, rest⟩,
    fun ⟨start, _, loaded, rest⟩ => start ▸ .cons loaded rest⟩

theorem append (first : Path h p cells₁ q) (second : Path h q cells₂ r) :
    Path h p (cells₁ ++ cells₂) r := by
  induction first with
  | nil => exact second
  | cons loaded _ ih => exact .cons loaded (ih second)

theorem split : ∀ {p : Option Nat} {cells₁ : List (Nat × α)}, Path h p (cells₁ ++ cells₂) r →
    ∃ q, Path h p cells₁ q ∧ Path h q cells₂ r
  | p, [], path => ⟨p, .nil p, path⟩
  | _, (_, _) :: cells₁, .cons loaded rest =>
    let ⟨q, first, second⟩ := split rest
    ⟨q, .cons loaded first, second⟩

theorem load_of_mem (path : Path h p cells q) {a : Nat} {d : α} (mem : (a, d) ∈ cells) :
    ∃ next, h.load a = some ⟨d, next⟩ := by
  induction path with
  | nil => simp at mem
  | cons loaded _ ih =>
    rcases List.mem_cons.mp mem with same | later
    · cases same
      exact ⟨_, loaded⟩
    · exact ih later

theorem frame (path : Path h p cells q) (same : ∀ c ∈ cells, h'.load c.1 = h.load c.1) :
    Path h' p cells q := by
  induction path with
  | nil => exact .nil _
  | cons loaded _ ih =>
    refine .cons ?_ (ih fun c mem => same c (List.mem_cons_of_mem _ mem))
    rw [same _ List.mem_cons_self, loaded]

theorem frame_sameOutside {as : List Nat} (path : Path h p cells q) (same : SameOutside h h' as)
    (apart : ∀ c ∈ cells, c.1 ∉ as) : Path h' p cells q :=
  path.frame fun c mem => same c.1 (apart c mem)

theorem frame_setNext (path : Path h p cells q) {a : Nat} {next : Option Nat}
    (outside : a ∉ cells.map Prod.fst) (done : h.setNext a next = some h') : Path h' p cells q :=
  path.frame fun c mem => by
    have other : c.1 ≠ a := fun same => outside (List.mem_map.mpr ⟨c, mem, same⟩)
    rw [load_setNext done, if_neg other]

theorem frame_alloc (path : Path h p cells q) (x : Cell α) : Path (h.alloc x).2 p cells q :=
  path.frame fun c mem => by
    obtain ⟨_, loaded⟩ := path.load_of_mem mem
    rw [load_alloc, if_neg (Nat.ne_of_lt (lt_of_load loaded))]

theorem snoc_setNext (path : Path h p cells (some t)) {d : α} {next : Option Nat}
    (loaded : h.load t = some ⟨d, next⟩) (outside : t ∉ cells.map Prod.fst) {r : Option Nat}
    (done : h.setNext t r = some h') : Path h' p (cells ++ [(t, d)]) r := by
  refine (path.frame_setNext outside done).append (.cons ?_ (.nil r))
  rw [load_setNext done, if_pos rfl, loaded]
  rfl

theorem relink_last {init : List (Nat × α)} {t : Nat} {d : α} (path : Path h p (init ++ [(t, d)]) q)
    (outside : t ∉ init.map Prod.fst) {r : Option Nat} (done : h.setNext t r = some h') :
    Path h' p (init ++ [(t, d)]) r := by
  obtain ⟨_, front, back⟩ := split path
  obtain ⟨rfl, _, loaded, -⟩ := cons_iff.mp back
  exact front.snoc_setNext loaded outside done

theorem setNext_last {init : List (Nat × α)} {t : Nat} {d : α} (path : Path h p (init ++ [(t, d)]) q)
    (r : Option Nat) : ∃ h', h.setNext t r = some h' := by
  obtain ⟨_, loaded⟩ := path.load_of_mem (List.mem_append_right _ (List.mem_singleton_self _))
  exact setNext_of_load loaded r

theorem start_eq (path : Path h p cells q) : p = addrAt cells q 0 := by
  cases path with
  | nil => rfl
  | cons => rfl

theorem live (path : Path h p cells q) : ∀ a ∈ cells.map Prod.fst, (h.load a).isSome := by
  intro a mem
  obtain ⟨⟨_, _⟩, cell, rfl⟩ := List.mem_map.mp mem
  obtain ⟨_, loaded⟩ := path.load_of_mem cell
  simp [loaded]

theorem load_at (path : Path h p cells q) : ∀ {i : Nat} (inside : i < cells.length),
    addrAt cells q i = some cells[i].1 ∧ h.load cells[i].1 = some ⟨cells[i].2, addrAt cells q (i + 1)⟩ := by
  induction path with
  | nil => intro i inside; simp at inside
  | cons loaded rest ih =>
    intro i inside
    cases i with
    | zero => exact ⟨rfl, by rw [rest.start_eq] at loaded; exact loaded⟩
    | succ i => exact ih (by simpa using inside)

theorem drop (path : Path h p cells q) : ∀ i ≤ cells.length, Path h (addrAt cells q i) (cells.drop i) q := by
  induction path with
  | nil => intro i le; simp at le; subst le; exact .nil _
  | cons loaded rest ih =>
    intro i le
    cases i with
    | zero => exact .cons loaded rest
    | succ i =>
      have := ih i (by simpa using le)
      simpa [addrAt] using this

end Path

namespace Chain
variable {h h' : SlotHeap (Cell α)} {p : Option Nat} {cells cells₁ cells₂ : List (Nat × α)}

theorem unique : ∀ {p : Option Nat} {cells₁ cells₂ : List (Nat × α)},
    Chain h p cells₁ → Chain h p cells₂ → cells₁ = cells₂
  | _, [], [], _, _ => rfl
  | _, [], (_, _) :: _, .nil _, second => by cases second
  | _, (_, _) :: _, [], first, .nil _ => by cases first
  | _, (_, _) :: _, (_, _) :: _, .cons loaded₁ rest₁, .cons loaded₂ rest₂ => by
    rw [loaded₁] at loaded₂
    cases loaded₂
    rw [unique rest₁ rest₂]

theorem nodup : ∀ {p : Option Nat} {cells : List (Nat × α)}, Chain h p cells → (cells.map Prod.fst).Nodup
  | _, [], _ => List.nodup_nil
  | _, (a, d) :: cells, .cons loaded rest => by
    refine List.nodup_cons.mpr ⟨fun again => ?_, nodup rest⟩
    obtain ⟨⟨_, d'⟩, mem, rfl⟩ := List.mem_map.mp again
    obtain ⟨pre, post, rfl⟩ := List.append_of_mem mem
    obtain ⟨_, -, second⟩ := Path.split rest
    cases second with
    | cons loaded' rest' =>
      have whole : Chain h (some _) ((_, d) :: (pre ++ (_, d') :: post)) := Path.cons loaded rest
      have := congrArg List.length (unique whole (Path.cons loaded' rest'))
      simp at this
      omega

theorem length_le (chain : Chain h p cells) : cells.length ≤ h.slots.length := by
  simpa using length_le_of_live chain.nodup (Path.live chain)

theorem cut (chain : Chain h p (cells₁ ++ cells₂)) (nonempty : cells₁ ≠ [])
    (done : h.setNext (cells₁.getLast nonempty).1 none = some h') :
    Chain h' p cells₁ ∧ Chain h' (addrAt cells₂ none 0) cells₂ := by
  obtain ⟨init, ⟨a, d⟩, rfl⟩ := (List.eq_nil_or_concat' cells₁).resolve_left nonempty
  rw [List.getLast_append_singleton] at done
  have apart := chain.nodup
  rw [List.map_append, List.nodup_append] at apart
  have fresh_back : a ∉ cells₂.map Prod.fst := fun mem => apart.2.2 a (by simp) a mem rfl
  have fresh_front : a ∉ init.map Prod.fst := by
    have := apart.1
    simp only [List.map_append, List.map_cons, List.map_nil, List.nodup_append] at this
    exact fun mem => this.2.2 a mem a (List.mem_singleton_self a) rfl
  obtain ⟨q, first, second⟩ := Path.split chain
  refine ⟨first.relink_last fresh_front done, ?_⟩
  rw [← second.start_eq]
  exact second.frame_setNext fresh_back done

end Chain

end SlotHeap

section HalvingSort
variable {α β : Type}

def halvingSort (le : α → α → Bool) (l : List α) : List α :=
  if l.length ≤ 1 then l
  else (halvingSort le (l.take (l.length / 2))).merge (halvingSort le (l.drop (l.length / 2))) le
termination_by l.length
decreasing_by all_goals simp; omega

theorem halvingSort_short (le : α → α → Bool) {l : List α} (short : l.length ≤ 1) :
    halvingSort le l = l := by
  rw [halvingSort, if_pos short]

theorem halvingSort_long (le : α → α → Bool) {l : List α} (long : ¬l.length ≤ 1) :
    halvingSort le l =
      (halvingSort le (l.take (l.length / 2))).merge (halvingSort le (l.drop (l.length / 2))) le := by
  rw [halvingSort, if_neg long]

theorem halvingSort_perm (le : α → α → Bool) (l : List α) : (halvingSort le l).Perm l := by
  induction l using halvingSort.induct with
  | case1 l short => rw [halvingSort_short le short]
  | case2 l long first second =>
    rw [halvingSort_long le long]
    calc ((halvingSort le _).merge (halvingSort le _) le).Perm
          (halvingSort le (l.take (l.length / 2)) ++ halvingSort le (l.drop (l.length / 2))) :=
        List.merge_perm_append le
      List.Perm _ (l.take (l.length / 2) ++ l.drop (l.length / 2)) := first.append second
      List.Perm _ l := by rw [List.take_append_drop]

theorem pairwise_halvingSort (le : α → α → Bool) (trans : ∀ a b c, le a b → le b c → le a c)
    (total : ∀ a b, (le a b || le b a) = true) (l : List α) :
    (halvingSort le l).Pairwise (le · ·) := by
  induction l using halvingSort.induct with
  | case1 l short =>
    rw [halvingSort_short le short]
    match l, short with
    | [], _ => exact List.Pairwise.nil
    | [_], _ => exact List.pairwise_singleton _ _
  | case2 l long first second =>
    rw [halvingSort_long le long]
    exact List.pairwise_merge trans total _ _ first second

theorem map_halvingSort (f : α → β) {le : α → α → Bool} {le' : β → β → Bool}
    (agree : ∀ a b, le a b = le' (f a) (f b)) (l : List α) :
    (halvingSort le l).map f = halvingSort le' (l.map f) := by
  induction l using halvingSort.induct with
  | case1 l short =>
    rw [halvingSort_short le short, halvingSort_short le' (by simpa using short)]
  | case2 l long first second =>
    rw [halvingSort_long le long, halvingSort_long le' (by simpa using long),
      List.map_merge fun a _ b _ => agree a b, first, second, List.length_map, List.map_take,
      List.map_drop]

end HalvingSort
