import Mathlib.Data.List.Basic
import Mathlib.Tactic

/-!
# Guarded runs of a step function
-/

namespace GoStream.Foundations

variable {σ ι : Type*}

/-- The state reached by taking the inputs one after another. -/
def run (step : σ → ι → σ) (s : σ) (inputs : List ι) : σ := inputs.foldl step s

@[simp] theorem run_nil (step : σ → ι → σ) (s : σ) : run step s [] = s := rfl

@[simp] theorem run_cons (step : σ → ι → σ) (s : σ) (i : ι) (is : List ι) :
    run step s (i :: is) = run step (step s i) is := rfl

theorem run_append (step : σ → ι → σ) (s : σ) (is js : List ι) :
    run step s (is ++ js) = run step (run step s is) js := List.foldl_append

/-- Every input meets `ok` in the state it is taken in. -/
def Meets (ok : σ → ι → Prop) (step : σ → ι → σ) : σ → List ι → Prop
  | _, [] => True
  | s, i :: is => ok s i ∧ Meets ok step (step s i) is

instance decidableMeets (ok : σ → ι → Prop) [∀ s i, Decidable (ok s i)] (step : σ → ι → σ) :
    ∀ (s : σ) (is : List ι), Decidable (Meets ok step s is)
  | _, [] => .isTrue trivial
  | s, i :: is =>
      have := decidableMeets ok step (step s i) is
      inferInstanceAs (Decidable (ok s i ∧ Meets ok step (step s i) is))

variable {ok : σ → ι → Prop} {step : σ → ι → σ} {Inv : σ → Prop}

theorem Meets.mono {ok' : σ → ι → Prop} (h : ∀ s i, ok s i → ok' s i) :
    ∀ {is : List ι} {s : σ}, Meets ok step s is → Meets ok' step s is
  | [], _, _ => trivial
  | i :: _, s, hs => ⟨h s i hs.1, Meets.mono h hs.2⟩

theorem Meets.invariant (keep : ∀ s i, Inv s → ok s i → Inv (step s i)) :
    ∀ (is : List ι) {s : σ}, Inv s → Meets ok step s is → Inv (run step s is)
  | [], _, hs, _ => hs
  | i :: is, s, hs, h => Meets.invariant keep is (keep s i hs h.1) h.2

theorem run_invariant {fair : ι → Prop} (keep : ∀ s i, Inv s → fair i → Inv (step s i)) :
    ∀ (is : List ι) {s : σ}, Inv s → (∀ i ∈ is, fair i) → Inv (run step s is)
  | [], _, hs, _ => hs
  | i :: is, s, hs, h =>
      run_invariant keep is (keep s i hs (h i (by simp))) fun j hj => h j (by simp [hj])

theorem run_keeps (Inv : σ → Prop) (keep : ∀ s i, Inv s → Inv (step s i)) (is : List ι) {s : σ}
    (hs : Inv s) : Inv (run step s is) :=
  run_invariant (fun s i hs _ => keep s i hs) is hs fun _ _ => (trivial : True)

/-- Every state of a guarded run is good when the invariant makes it so. -/
theorem Meets.good {good : σ → Prop} (keep : ∀ s i, Inv s → ok s i → Inv (step s i))
    (good_of_inv : ∀ s, Inv s → good s) :
    ∀ {s : σ} (is : List ι), Inv s → Meets ok step s is →
      ∀ pre, pre <+: is → good (run step s pre) := by
  intro s is
  induction is generalizing s with
  | nil =>
    intro hs _ pre hpre
    rw [List.prefix_nil.mp hpre]
    exact good_of_inv s hs
  | cons i is ih =>
    rintro hs ⟨hok, hrest⟩ pre hpre
    cases pre with
    | nil => exact good_of_inv s hs
    | cons j pre =>
      obtain ⟨rfl, htail⟩ := List.cons_prefix_cons.mp hpre
      exact ih (keep s j hs hok) hrest pre htail

/-- If breaking the guard leaves a bad state, a run of good states meets it. -/
theorem meets_of_good {good : σ → Prop} {fair : ι → Prop}
    (keep : ∀ s i, Inv s → ok s i → Inv (step s i))
    (sharp : ∀ s i, Inv s → fair i → ¬ ok s i → ¬ good (step s i)) :
    ∀ {s : σ} (is : List ι), Inv s → (∀ i ∈ is, fair i) →
      (∀ pre, pre <+: is → good (run step s pre)) → Meets ok step s is := by
  intro s is
  induction is generalizing s with
  | nil => exact fun _ _ _ => trivial
  | cons i is ih =>
    intro hs hfair hgood
    have hok : ok s i := by
      by_contra hbad
      exact sharp s i hs (hfair i (by simp)) hbad (hgood [i] ⟨is, rfl⟩)
    refine ⟨hok, ih (keep s i hs hok) (fun j hj => hfair j (by simp [hj])) fun pre hpre => ?_⟩
    exact hgood (i :: pre) (List.cons_prefix_cons.mpr ⟨rfl, hpre⟩)

theorem good_iff_meets (good : σ → Prop) (hstep : ∀ s i, good s → (good (step s i) ↔ ok s i))
    {s : σ} (hs : good s) (is : List ι) :
    (∀ pre, pre <+: is → good (run step s pre)) ↔ Meets ok step s is := by
  have hkeep : ∀ s i, good s → ok s i → good (step s i) := fun s i hs hi => (hstep s i hs).mpr hi
  constructor
  · apply meets_of_good hkeep _ is hs fun _ _ => (trivial : True)
    exact fun s i hs _ hbad hgood => hbad ((hstep s i hs).mp hgood)
  · exact Meets.good hkeep (fun _ hs => hs) is hs

theorem meets_iff_forall_step (is : List ι) {s : σ} : Meets ok step s is ↔
    ∀ pre i, pre ++ [i] <+: is → ok (run step s pre) i := by
  induction is generalizing s with
  | nil =>
    refine iff_of_true trivial fun pre i h => absurd (List.prefix_nil.mp h) (by simp)
  | cons i is ih =>
    rw [Meets, ih]
    constructor
    · rintro ⟨hi, hrest⟩ pre j hpre
      cases pre with
      | nil =>
        obtain ⟨rfl, -⟩ := List.cons_prefix_cons.mp hpre
        exact hi
      | cons a pre =>
        obtain ⟨rfl, htail⟩ := List.cons_prefix_cons.mp hpre
        exact hrest pre j htail
    · intro h
      refine ⟨h [] i ⟨is, rfl⟩, fun pre j hpre => ?_⟩
      exact h (i :: pre) j (List.cons_prefix_cons.mpr ⟨rfl, hpre⟩)

theorem meets_const {fair : ι → Prop} (is : List ι) {s : σ} :
    Meets (fun _ i => fair i) step s is ↔ ∀ i ∈ is, fair i := by
  induction is generalizing s with
  | nil => simp [Meets]
  | cons i is ih => rw [Meets, ih, List.forall_mem_cons]

theorem meets_and_const {fair : ι → Prop} (is : List ι) {s : σ} :
    Meets (fun s i => fair i ∧ ok s i) step s is ↔ (∀ i ∈ is, fair i) ∧ Meets ok step s is := by
  induction is generalizing s with
  | nil => simp [Meets]
  | cons i is ih =>
    rw [Meets, Meets, ih, List.forall_mem_cons]
    exact and_and_and_comm

theorem meets_of_invariant {fair : ι → Prop} (keep : ∀ s i, Inv s → fair i → Inv (step s i))
    (ok_of_inv : ∀ s i, Inv s → fair i → ok s i) :
    ∀ (is : List ι) {s : σ}, Inv s → (∀ i ∈ is, fair i) → Meets ok step s is
  | [], _, _, _ => trivial
  | i :: is, s, hs, h =>
      ⟨ok_of_inv s i hs (h i (by simp)),
        meets_of_invariant keep ok_of_inv is (keep s i hs (h i (by simp)))
          fun j hj => h j (by simp [hj])⟩

end GoStream.Foundations
