import Mathlib.Data.List.Basic
import Mathlib.Tactic.Common

/-!
A heap of slots addressed by position, for programs that allocate records and
release them by hand. `alloc` puts a value in a new slot at the end, `free`
empties a slot, and reading, writing or releasing an empty slot is undefined:
the operations report it as `none`. Addresses are never reused, so a pointer
kept past a release still names the empty slot.
-/

structure SlotHeap (α : Type) where
  slots : List (Option α)
  deriving DecidableEq, Repr

namespace SlotHeap
variable {α : Type}

def empty : SlotHeap α := ⟨[]⟩

def load (h : SlotHeap α) (a : Nat) : Option α := h.slots[a]?.join

def alloc (h : SlotHeap α) (x : α) : Nat × SlotHeap α := (h.slots.length, ⟨h.slots ++ [some x]⟩)

def modify (h : SlotHeap α) (a : Nat) (f : α → α) : Option (SlotHeap α) :=
  (h.load a).map fun x => ⟨h.slots.set a (some (f x))⟩

def free (h : SlotHeap α) (a : Nat) : Option (SlotHeap α) :=
  (h.load a).map fun _ => ⟨h.slots.set a none⟩

def freeAll (h : SlotHeap α) : List Nat → Option (SlotHeap α)
  | [] => some h
  | a :: as => (h.free a).bind (·.freeAll as)

@[simp] theorem load_empty (a : Nat) : (empty : SlotHeap α).load a = none := rfl

@[simp] theorem alloc_fst (h : SlotHeap α) (x : α) : (h.alloc x).1 = h.slots.length := rfl

theorem load_alloc (h : SlotHeap α) (x : α) (b : Nat) :
    (h.alloc x).2.load b = if b = h.slots.length then some x else h.load b := by
  simp only [alloc, load]
  split_ifs with same
  · subst same
    simp
  · rcases Nat.lt_or_gt_of_ne same with below | above
    · rw [List.getElem?_append_left below]
    · rw [List.getElem?_eq_none (by simp only [List.length_append, List.length_singleton]; omega),
        List.getElem?_eq_none (by omega)]

@[simp] theorem load_alloc_self (h : SlotHeap α) (x : α) : (h.alloc x).2.load (h.alloc x).1 = some x := by
  simp [load_alloc]

@[simp] theorem load_length (h : SlotHeap α) : h.load h.slots.length = none := by
  simp [load]

theorem lt_of_load {h : SlotHeap α} {a : Nat} {x : α} (loaded : h.load a = some x) :
    a < h.slots.length := by
  by_contra outside
  simp [load, List.getElem?_eq_none (Nat.le_of_not_lt outside)] at loaded

theorem load_set (h : SlotHeap α) {a : Nat} (inside : a < h.slots.length) (v : Option α) (b : Nat) :
    SlotHeap.load ⟨h.slots.set a v⟩ b = if b = a then v else h.load b := by
  simp only [load, List.getElem?_set]
  by_cases same : a = b
  · subst same
    simp [inside]
  · simp [same, Ne.symm same]

theorem modify_eq_some {h h' : SlotHeap α} {a : Nat} {f : α → α} :
    h.modify a f = some h' ↔ ∃ x, h.load a = some x ∧ h' = ⟨h.slots.set a (some (f x))⟩ := by
  simp only [modify, Option.map_eq_some_iff]
  exact ⟨fun ⟨x, loaded, built⟩ => ⟨x, loaded, built.symm⟩,
    fun ⟨x, loaded, built⟩ => ⟨x, loaded, built.symm⟩⟩

theorem load_modify {h h' : SlotHeap α} {a : Nat} {f : α → α} (done : h.modify a f = some h')
    (b : Nat) : h'.load b = if b = a then (h.load a).map f else h.load b := by
  obtain ⟨x, loaded, rfl⟩ := modify_eq_some.mp done
  rw [load_set h (lt_of_load loaded), loaded, Option.map_some]

theorem free_eq_some {h h' : SlotHeap α} {a : Nat} :
    h.free a = some h' ↔ (h.load a).isSome ∧ h' = ⟨h.slots.set a none⟩ := by
  cases loaded : h.load a <;> simp [free, loaded, eq_comm]

theorem load_free {h h' : SlotHeap α} {a : Nat} (done : h.free a = some h') (b : Nat) :
    h'.load b = if b = a then none else h.load b := by
  obtain ⟨live, rfl⟩ := free_eq_some.mp done
  obtain ⟨x, loaded⟩ := Option.isSome_iff_exists.mp live
  exact load_set h (lt_of_load loaded) none b

theorem load_freeAll {h h' : SlotHeap α} {as : List Nat} (done : h.freeAll as = some h') (b : Nat) :
    h'.load b = if b ∈ as then none else h.load b := by
  induction as generalizing h with
  | nil =>
    cases done
    simp
  | cons a as ih =>
    obtain ⟨h₁, freed, rest⟩ := Option.bind_eq_some_iff.mp done
    rw [ih rest, load_free freed]
    by_cases mem : b ∈ as <;> by_cases same : b = a <;> simp [mem, same]

theorem freeAll_isSome_iff (h : SlotHeap α) (as : List Nat) :
    (h.freeAll as).isSome ↔ as.Nodup ∧ ∀ a ∈ as, (h.load a).isSome := by
  induction as generalizing h with
  | nil => simp [freeAll]
  | cons a as ih =>
    cases freed : h.free a with
    | none =>
      have dead : (h.load a).isSome = false := by simpa [free] using freed
      simp [freeAll, freed, dead]
    | some h₁ =>
      obtain ⟨live, -⟩ := free_eq_some.mp freed
      have loads : ∀ b ∈ as, (h₁.load b).isSome ↔ b ≠ a ∧ (h.load b).isSome := by
        intro b _
        rw [load_free freed]
        by_cases same : b = a <;> simp [same]
      simp only [freeAll, freed, Option.bind_some, ih, List.nodup_cons, List.forall_mem_cons, live,
        true_and]
      constructor
      · rintro ⟨nodup, all⟩
        refine ⟨⟨fun mem => ((loads a mem).mp (all a mem)).1 rfl, nodup⟩, ?_⟩
        intro b mem
        exact ((loads b mem).mp (all b mem)).2
      · rintro ⟨⟨fresh, nodup⟩, all⟩
        refine ⟨nodup, fun b mem => (loads b mem).mpr ⟨?_, all b mem⟩⟩
        rintro rfl
        exact fresh mem

theorem modify_isSome {h : SlotHeap α} {a : Nat} (f : α → α) (live : (h.load a).isSome) :
    ∃ h', h.modify a f = some h' := by
  obtain ⟨x, loaded⟩ := Option.isSome_iff_exists.mp live
  exact ⟨_, modify_eq_some.mpr ⟨x, loaded, rfl⟩⟩

def ModifiedOn (f : α → α) (as : List Nat) (h h' : SlotHeap α) : Prop :=
  ∀ b, h'.load b = if b ∈ as then (h.load b).map f else h.load b

namespace ModifiedOn
variable {f : α → α} {as bs : List Nat} {h h' h₁ h₂ h₃ : SlotHeap α}

theorem nil (h : SlotHeap α) : ModifiedOn f [] h h := fun b => by simp

theorem of_modify {a : Nat} (done : h.modify a f = some h') : ModifiedOn f [a] h h' := fun b => by
  rw [load_modify done b]
  by_cases same : b = a
  · subst same
    simp
  · simp [same]

theorem append (first : ModifiedOn f as h₁ h₂) (second : ModifiedOn f bs h₂ h₃)
    (apart : ∀ b ∈ bs, b ∉ as) : ModifiedOn f (as ++ bs) h₁ h₃ := fun b => by
  rw [second b, first b]
  by_cases inB : b ∈ bs
  · simp [inB, apart b inB]
  · by_cases inA : b ∈ as <;> simp [inA, inB]

theorem of_mem_iff (mod : ModifiedOn f as h h') (same : ∀ b, b ∈ as ↔ b ∈ bs) :
    ModifiedOn f bs h h' := fun b => by
  rw [mod b]
  simp only [same b]

theorem isSome_load (mod : ModifiedOn f as h h') (b : Nat) :
    (h'.load b).isSome = (h.load b).isSome := by
  rw [mod b]
  split_ifs <;> simp

end ModifiedOn

end SlotHeap
