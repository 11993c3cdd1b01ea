import Mathlib.Algebra.Order.Floor.Ring
import Mathlib.Algebra.Order.Floor.Semiring
import Mathlib.Data.List.Nodup
import Mathlib.Data.List.Pairwise
import Mathlib.Data.Rat.Lemmas
import Mathlib.Tactic.Linarith

/-!
# Unit steps

The progression from a first element in steps of one, up to a bound that it does not reach. Two of
them meet exactly where they begin an integer apart, both below the bound, so a family of them has
no element twice exactly where no two of its members do (`nodup_flatMap_unitSteps_iff`).
-/

namespace GenropyAsgi.Library

variable {K ι : Type} [Field K] [LinearOrder K] [IsStrictOrderedRing K] [FloorRing K]

/-- The steps of one from `first` that are below `bound`. -/
def unitSteps (first bound : K) : List K :=
  (List.range ⌈bound - first⌉₊).map fun (k : ℕ) => first + k

/-- The steps, one by one. -/
theorem getElem?_unitSteps {first bound t : K} {k : ℕ} :
    (unitSteps first bound)[k]? = some t ↔ t = first + k ∧ t < bound := by
  rw [unitSteps, List.getElem?_map, Option.map_eq_some_iff]
  constructor
  · rintro ⟨i, hi, rfl⟩
    obtain ⟨hlt, rfl⟩ := List.getElem?_eq_some_iff.1 hi
    rw [List.length_range, Nat.lt_ceil] at hlt
    rw [List.getElem_range]
    exact ⟨rfl, by linarith⟩
  · rintro ⟨rfl, hlt⟩
    have hk : k < ⌈bound - first⌉₊ := Nat.lt_ceil.2 (by linarith)
    exact ⟨k, List.getElem?_range hk, rfl⟩

/-- What is among the steps. -/
theorem mem_unitSteps {first bound t : K} :
    t ∈ unitSteps first bound ↔ ∃ k : ℕ, t = first + k ∧ t < bound := by
  simp only [List.mem_iff_getElem?, getElem?_unitSteps]

/-- No step is taken twice. -/
theorem nodup_unitSteps (first bound : K) : (unitSteps first bound).Nodup := by
  refine List.Nodup.map (fun i j hij => ?_) List.nodup_range
  exact Nat.cast_injective (add_left_cancel hij)

/-- No step from an element that is not below the bound. -/
theorem unitSteps_eq_nil {first bound : K} (h : bound ≤ first) : unitSteps first bound = [] := by
  rw [unitSteps, Nat.ceil_eq_zero.2 (by linarith)]
  rfl

/-- The first step and those after it. -/
theorem unitSteps_eq_cons {first bound : K} (h : first < bound) :
    unitSteps first bound = first :: unitSteps (first + 1) bound := by
  refine List.ext_getElem?_iff.2 fun k => Option.ext fun t => ?_
  cases k with
  | zero =>
    rw [getElem?_unitSteps, List.getElem?_cons_zero, Option.some_inj, Nat.cast_zero, add_zero]
    constructor
    · rintro ⟨rfl, _⟩
      rfl
    · rintro rfl
      exact ⟨rfl, h⟩
  | succ k =>
    rw [getElem?_unitSteps, List.getElem?_cons_succ, getElem?_unitSteps]
    have hstep : first + ((k + 1 : ℕ) : K) = first + 1 + k := by push_cast; linarith
    rw [hstep]

/-- Two progressions are apart exactly where they do not begin an integer apart, both below the
bound. -/
theorem disjoint_unitSteps_iff {first first' bound : K} :
    (unitSteps first bound).Disjoint (unitSteps first' bound) ↔
      (first < bound → first' < bound → ∀ k : ℤ, first' - first ≠ k) := by
  constructor
  · intro hapart hlt hlt' k hk
    -- The one that begins later begins at a step of the other.
    obtain ⟨n, rfl | rfl⟩ := k.eq_nat_or_neg
    · have hbegin : first' = first + n := by push_cast at hk; linarith
      exact hapart (mem_unitSteps.2 ⟨n, hbegin, hlt'⟩)
        (mem_unitSteps.2 ⟨0, by rw [Nat.cast_zero, add_zero], hlt'⟩)
    · have hbegin : first = first' + n := by push_cast at hk; linarith
      exact hapart (mem_unitSteps.2 ⟨0, by rw [Nat.cast_zero, add_zero], hlt⟩)
        (mem_unitSteps.2 ⟨n, hbegin, hlt⟩)
  · intro hapart t ht ht'
    obtain ⟨k, hk, hlt⟩ := mem_unitSteps.1 ht
    obtain ⟨k', hk', _⟩ := mem_unitSteps.1 ht'
    have hfirst : first < bound := by
      have := Nat.cast_nonneg (α := K) k
      linarith
    have hfirst' : first' < bound := by
      have := Nat.cast_nonneg (α := K) k'
      linarith
    refine hapart hfirst hfirst' (k - k' : ℤ) ?_
    push_cast
    linarith

/-- A family of progressions, some of whose members may be missing, has no element twice exactly
where no two of them that begin below the bound begin an integer apart. -/
theorem nodup_flatMap_unitSteps_iff {first : ι → Option K} {bound : K} {members : List ι}
    (hmembers : members.Nodup) :
    (members.flatMap fun i => (first i).elim [] fun f => unitSteps f bound).Nodup ↔
      ∀ i ∈ members, ∀ j ∈ members, i ≠ j → ∀ f ∈ first i, ∀ g ∈ first j, f < bound → g < bound →
        ∀ k : ℤ, g - f ≠ k := by
  rw [List.nodup_flatMap]
  constructor
  · rintro ⟨_, hapart⟩ i hi j hj hne f hf g hg
    have hsymm : Std.Symm (Function.onFun List.Disjoint fun i =>
        (first i).elim [] fun f => unitSteps f bound) := ⟨fun _ _ h => List.disjoint_symm h⟩
    have hpair := hapart.forall hi hj hne
    simp only [Function.onFun, Option.mem_def.1 hf, Option.mem_def.1 hg, Option.elim_some] at hpair
    exact disjoint_unitSteps_iff.1 hpair
  · intro hapart
    refine ⟨fun i _ => ?_, hmembers.pairwise_of_forall_ne fun i hi j hj hne => ?_⟩
    · cases first i with
      | none => exact List.nodup_nil
      | some f => exact nodup_unitSteps f bound
    · simp only [Function.onFun]
      cases hf : first i with
      | none => exact List.disjoint_nil_left _
      | some f =>
        cases hg : first j with
        | none => exact List.disjoint_nil_right _
        | some g => exact disjoint_unitSteps_iff.2 (hapart i hi j hj hne f hf g hg)

/-- A multiple of a fraction is an integer only where its denominator divides the factor. -/
theorem den_dvd_of_mul_eq {x : ℚ} {k : ℕ} {m : ℤ} (hk : k ≠ 0) (h : k * x = m) : x.den ∣ k := by
  have hne : (k : ℚ) ≠ 0 := Nat.cast_ne_zero.2 hk
  have hx : x = Rat.divInt m k := by
    rw [Rat.divInt_eq_div, ← h]
    push_cast
    rw [mul_div_cancel_left₀ _ hne]
  have hdvd := Rat.den_dvd m k
  rw [← hx] at hdvd
  exact_mod_cast hdvd

end GenropyAsgi.Library
