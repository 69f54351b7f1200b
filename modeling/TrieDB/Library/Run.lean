import Mathlib.Logic.Basic

/-!
Runs of a step function that may fail, over a sequence of operations. A failed
step ends the run with `none`. Two rules carry every whole-run result built on
it: an invariant that every step keeps, without failing, holds after every run;
and an abstraction that commutes with every step maps the run onto the run of
the abstract step. A partial abstract step gives refinement: every run the
abstract machine makes, the concrete one makes too.
-/
namespace OpRun
variable {σ α ω : Type}

def run (step : σ → ω → Option σ) : σ → List ω → Option σ
  | s, [] => some s
  | s, o :: ops => (step s o).bind (run step · ops)

@[simp] theorem run_nil (step : σ → ω → Option σ) (s : σ) : run step s [] = some s := rfl

@[simp] theorem run_cons (step : σ → ω → Option σ) (s : σ) (o : ω) (ops : List ω) :
    run step s (o :: ops) = (step s o).bind (run step · ops) := rfl

theorem run_append (step : σ → ω → Option σ) (s : σ) (ops ops' : List ω) :
    run step s (ops ++ ops') = (run step s ops).bind (run step · ops') := by
  induction ops generalizing s with
  | nil => rfl
  | cons o ops ih => simp only [List.cons_append, run_cons, ih, Option.bind_assoc]

theorem run_preserves_of_forall {step : σ → ω → Option σ} {Inv : σ → Prop} {P : ω → Prop}
    (keep : ∀ s o s', P o → Inv s → step s o = some s' → Inv s') :
    ∀ ops s s', (∀ o ∈ ops, P o) → Inv s → run step s ops = some s' → Inv s' := by
  intro ops
  induction ops with
  | nil =>
    intro s s' _ hs done
    cases done
    exact hs
  | cons o ops ih =>
    intro s s' allP hs done
    obtain ⟨s₁, step₁, rest⟩ := Option.bind_eq_some_iff.mp done
    have first : P o := allP o List.mem_cons_self
    exact ih s₁ s' (fun o' mem => allP o' (List.mem_cons_of_mem o mem)) (keep s o s₁ first hs step₁) rest

theorem run_preserves {step : σ → ω → Option σ} {Inv : σ → Prop}
    (keep : ∀ s o s', Inv s → step s o = some s' → Inv s') :
    ∀ ops s s', Inv s → run step s ops = some s' → Inv s' := fun ops s s' hs done =>
  run_preserves_of_forall (fun s o s' (_ : True) => keep s o s') ops s s' (fun _ _ => trivial) hs done

def Keeps (step : σ → ω → Option σ) (Inv : σ → Prop) : Prop :=
  ∀ s o, Inv s → ∃ s', step s o = some s' ∧ Inv s'

theorem run_keeps {step : σ → ω → Option σ} {Inv : σ → Prop} (keep : Keeps step Inv) :
    ∀ ops s, Inv s → ∃ s', run step s ops = some s' ∧ Inv s' := by
  intro ops
  induction ops with
  | nil => intro s hs; exact ⟨s, rfl, hs⟩
  | cons o ops ih =>
    intro s hs
    obtain ⟨s₁, step₁, inv₁⟩ := keep s o hs
    obtain ⟨s', rest, inv'⟩ := ih s₁ inv₁
    exact ⟨s', by simp [step₁, rest], inv'⟩

def Commutes (step : σ → ω → Option σ) (Inv : σ → Prop) (abs : σ → α) (astep : α → ω → α) :
    Prop :=
  ∀ s o s', Inv s → step s o = some s' → abs s' = astep (abs s) o

theorem run_simulates {step : σ → ω → Option σ} {Inv : σ → Prop} {abs : σ → α}
    {astep : α → ω → α} (keep : Keeps step Inv) (commute : Commutes step Inv abs astep) :
    ∀ ops s, Inv s → ∃ s', run step s ops = some s' ∧ Inv s' ∧
      abs s' = ops.foldl astep (abs s) := by
  intro ops
  induction ops with
  | nil => intro s hs; exact ⟨s, rfl, hs, rfl⟩
  | cons o ops ih =>
    intro s hs
    obtain ⟨s₁, step₁, inv₁⟩ := keep s o hs
    obtain ⟨s', rest, inv', image⟩ := ih s₁ inv₁
    refine ⟨s', by simp [step₁, rest], inv', ?_⟩
    rw [image, commute s o s₁ hs step₁, List.foldl_cons]

def SimulatesOn (P : ω → Prop) (step : σ → ω → Option σ) (astep : α → ω → α) (R : σ → α → Prop) :
    Prop :=
  ∀ s a o, P o → R s a → ∃ s', step s o = some s' ∧ R s' (astep a o)

theorem run_simulates_rel_of_forall {P : ω → Prop} {step : σ → ω → Option σ} {astep : α → ω → α}
    {R : σ → α → Prop} (sim : SimulatesOn P step astep R) :
    ∀ ops s a, (∀ o ∈ ops, P o) → R s a → ∃ s', run step s ops = some s' ∧ R s' (ops.foldl astep a) := by
  intro ops
  induction ops with
  | nil => intro s a _ related; exact ⟨s, rfl, related⟩
  | cons o ops ih =>
    intro s a allowed related
    obtain ⟨s₁, step₁, related₁⟩ := sim s a o (allowed o List.mem_cons_self) related
    obtain ⟨s', rest, related'⟩ :=
      ih s₁ (astep a o) (fun o' mem => allowed o' (List.mem_cons_of_mem o mem)) related₁
    exact ⟨s', by simp [step₁, rest], related'⟩

def Refines (step : σ → ω → Option σ) (astep : α → ω → Option α) (R : σ → α → Prop) : Prop :=
  ∀ s a o a', R s a → astep a o = some a' → ∃ s', step s o = some s' ∧ R s' a'

def RefinesOn (P : ω → Prop) (step : σ → ω → Option σ) (astep : α → ω → Option α) (R : σ → α → Prop) :
    Prop :=
  ∀ s a o a', P o → R s a → astep a o = some a' → ∃ s', step s o = some s' ∧ R s' a'

theorem run_refines_of_forall {P : ω → Prop} {step : σ → ω → Option σ} {astep : α → ω → Option α}
    {R : σ → α → Prop} (refines : RefinesOn P step astep R) :
    ∀ ops s a a', (∀ o ∈ ops, P o) → R s a → run astep a ops = some a' →
      ∃ s', run step s ops = some s' ∧ R s' a' := by
  intro ops
  induction ops with
  | nil =>
    intro s a a' _ related done
    cases done
    exact ⟨s, rfl, related⟩
  | cons o ops ih =>
    intro s a a' allowed related done
    obtain ⟨a₁, astep₁, rest⟩ := Option.bind_eq_some_iff.mp done
    obtain ⟨s₁, step₁, related₁⟩ := refines s a o a₁ (allowed o List.mem_cons_self) related astep₁
    obtain ⟨s', ran, related'⟩ :=
      ih s₁ a₁ a' (fun o' mem => allowed o' (List.mem_cons_of_mem o mem)) related₁ rest
    exact ⟨s', by simp [step₁, ran], related'⟩

end OpRun
