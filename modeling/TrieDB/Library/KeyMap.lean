import Mathlib.Logic.Function.Basic

/-!
Partial maps keyed by lists, read the way a tree of prefixes stores them:
`below m p` is the part of `m` whose keys extend `p`, re-rooted at `p`, and
`graft m p n` replaces that part by `n` while every key that does not extend
`p` keeps its value. Writing one node of such a tree is a graft at its path.
-/
namespace KeyMap
variable {β δ : Type}

def below (m : List β → Option δ) (p : List β) : List β → Option δ :=
  fun k => m (p ++ k)

section Below
variable {m : List β → Option δ}

@[simp] theorem below_apply (p k : List β) : below m p k = m (p ++ k) := rfl

@[simp] theorem below_nil : below m [] = m := rfl

end Below

variable [DecidableEq β]

def graft (m : List β → Option δ) (p : List β) (n : List β → Option δ) : List β → Option δ :=
  fun k => if p <+: k then n (k.drop p.length) else m k

variable {m n : List β → Option δ}

@[simp] theorem graft_nil : graft m [] n = n := by
  funext k
  simp [graft]

theorem graft_of_not_prefix {p k : List β} (h : ¬ p <+: k) : graft m p n k = m k := by
  simp [graft, h]

@[simp] theorem graft_append (p k : List β) : graft m p n (p ++ k) = n k := by
  simp [graft]

@[simp] theorem graft_self (p : List β) : graft m p n p = n [] := by
  simpa using graft_append (m := m) (n := n) p []

@[simp] theorem graft_cons_nil (c : β) (p : List β) : graft m (c :: p) n [] = m [] := by
  simp [graft]

theorem graft_cons_cons (c c' : β) (p k : List β) :
    graft m (c :: p) n (c' :: k) = if c' = c then graft (below m [c]) p n k else m (c' :: k) := by
  by_cases same : c' = c
  · subst c'
    by_cases h : p <+: k
    · simp [graft, h]
    · simp [graft, h]
  · simp [graft, same, Ne.symm same]

theorem graft_below (p : List β) : graft m p (below m p) = m := by
  funext k
  by_cases h : p <+: k
  · obtain ⟨t, rfl⟩ := h
    simp
  · exact graft_of_not_prefix h

theorem update_append_eq_graft (p q : List β) (v : Option δ) :
    Function.update m (p ++ q) v = graft m p (Function.update (below m p) q v) := by
  funext k
  by_cases h : p <+: k
  · obtain ⟨t, rfl⟩ := h
    by_cases same : t = q
    · subst same
      simp
    · have ne : p ++ t ≠ p ++ q := fun eq => same (List.append_cancel_left eq)
      simp [Function.update, ne, same]
  · have ne : k ≠ p ++ q := fun same => h (same ▸ List.prefix_append p q)
    simp [graft, h, Function.update, ne]

theorem update_graft_root (p : List β) (x : Option δ) :
    Function.update (graft m p (fun q => if q = [] then x else none)) p none =
      fun k => if p <+: k then none else m k := by
  funext k
  by_cases same : k = p
  · subst same
    simp
  · by_cases h : p <+: k
    · obtain ⟨t, rfl⟩ := h
      have nonempty : t ≠ [] := fun empty => same (by simp [empty])
      simp [Function.update, same, nonempty]
    · simp [Function.update, same, graft, h]

end KeyMap
