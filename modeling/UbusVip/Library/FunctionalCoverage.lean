import Mathlib.Algebra.Order.Field.Rat
import Mathlib.Tactic.Linarith
import Mathlib.Tactic.Positivity

namespace FunctionalCoverage

variable {S : Type}

def average (qs : List ℚ) : ℚ := qs.sum / qs.length

structure CoverItem (S : Type) where
  bins : List (S → Bool)

def CoverItem.hit (item : CoverItem S) (samples : List S) : List (S → Bool) :=
  item.bins.filter fun b => samples.any b

def CoverItem.percent (item : CoverItem S) (samples : List S) : ℚ :=
  100 * (item.hit samples).length / item.bins.length

def percent (group : List (CoverItem S)) (samples : List S) : ℚ :=
  average (group.map (·.percent samples))

theorem sum_le {c : ℚ} {qs : List ℚ} (h : ∀ q ∈ qs, q ≤ c) : qs.sum ≤ c * qs.length := by
  induction qs with
  | nil => simp
  | cons q qs ih =>
    have hq := h q (List.mem_cons_self ..)
    have hqs := ih fun r hr => h r (List.mem_cons_of_mem q hr)
    rw [List.sum_cons, List.length_cons]
    push_cast
    linarith

theorem sum_eq_iff {c : ℚ} {qs : List ℚ} (h : ∀ q ∈ qs, q ≤ c) :
    qs.sum = c * qs.length ↔ ∀ q ∈ qs, q = c := by
  induction qs with
  | nil => simp
  | cons q qs ih =>
    have hq := h q (List.mem_cons_self ..)
    have hrest : ∀ r ∈ qs, r ≤ c := fun r hr => h r (List.mem_cons_of_mem q hr)
    have hsum := sum_le hrest
    rw [List.sum_cons, List.length_cons, List.forall_mem_cons, ← ih hrest]
    push_cast
    constructor
    · intro heq
      exact ⟨by linarith, by linarith⟩
    · rintro ⟨rfl, heq⟩
      linarith

theorem average_le {c : ℚ} {qs : List ℚ} (h : ∀ q ∈ qs, q ≤ c) (hne : qs ≠ []) : average qs ≤ c := by
  have hpos : (0 : ℚ) < qs.length := by exact_mod_cast List.length_pos_iff_ne_nil.mpr hne
  rw [average, div_le_iff₀ hpos]
  exact sum_le h

theorem average_eq_iff {c : ℚ} {qs : List ℚ} (h : ∀ q ∈ qs, q ≤ c) (hne : qs ≠ []) :
    average qs = c ↔ ∀ q ∈ qs, q = c := by
  have hpos : (0 : ℚ) < qs.length := by exact_mod_cast List.length_pos_iff_ne_nil.mpr hne
  rw [average, div_eq_iff hpos.ne', sum_eq_iff h]

namespace CoverItem

variable {item : CoverItem S} {samples : List S}

theorem hit_le : (item.hit samples).length ≤ item.bins.length := List.length_filter_le ..

theorem percent_le (hne : item.bins ≠ []) : item.percent samples ≤ 100 := by
  have hpos : (0 : ℚ) < item.bins.length := by exact_mod_cast List.length_pos_iff_ne_nil.mpr hne
  have hle : ((item.hit samples).length : ℚ) ≤ item.bins.length := by exact_mod_cast hit_le
  rw [percent, div_le_iff₀ hpos]
  linarith

theorem percent_eq_iff (hne : item.bins ≠ []) :
    item.percent samples = 100 ↔ ∀ b ∈ item.bins, ∃ s ∈ samples, b s = true := by
  have hpos : (0 : ℚ) < item.bins.length := by exact_mod_cast List.length_pos_iff_ne_nil.mpr hne
  have hcount : item.percent samples = 100 ↔ (item.hit samples).length = item.bins.length := by
    rw [percent, div_eq_iff hpos.ne', mul_right_inj' (by norm_num)]
    exact Nat.cast_inj
  rw [hcount, hit, List.length_filter_eq_length_iff]
  simp only [List.any_eq_true]

end CoverItem

variable {group : List (CoverItem S)} {samples : List S}

theorem percent_le (hitems : ∀ item ∈ group, item.bins ≠ []) (hne : group ≠ []) :
    percent group samples ≤ 100 := by
  refine average_le ?_ (by simpa using hne)
  intro q hq
  obtain ⟨item, hitem, rfl⟩ := List.mem_map.mp hq
  exact CoverItem.percent_le (hitems item hitem)

theorem percent_eq_iff (hitems : ∀ item ∈ group, item.bins ≠ []) (hne : group ≠ []) :
    percent group samples = 100 ↔
      ∀ item ∈ group, ∀ b ∈ item.bins, ∃ s ∈ samples, b s = true := by
  have hle : ∀ q ∈ group.map (·.percent samples), q ≤ 100 := by
    intro q hq
    obtain ⟨item, hitem, rfl⟩ := List.mem_map.mp hq
    exact CoverItem.percent_le (hitems item hitem)
  rw [percent, average_eq_iff hle (by simpa using hne), List.forall_mem_map]
  exact forall₂_congr fun item hitem => CoverItem.percent_eq_iff (hitems item hitem)

theorem average_lt_of_unsampled {instances : List (List S)} (hmem : [] ∈ instances)
    (hitems : ∀ item ∈ group, item.bins ≠ []) (hne : group ≠ []) :
    average (instances.map (percent group)) < 100 := by
  have hle : ∀ q ∈ instances.map (percent group), q ≤ 100 := by
    intro q hq
    obtain ⟨samples, -, rfl⟩ := List.mem_map.mp hq
    exact percent_le hitems hne
  have hinst : instances.map (percent group) ≠ [] := by simpa using List.ne_nil_of_mem hmem
  refine lt_of_le_of_ne (average_le hle hinst) ?_
  intro heq
  have hall := (average_eq_iff hle hinst).mp heq _ (List.mem_map_of_mem hmem)
  obtain ⟨item, hitem⟩ := List.exists_mem_of_ne_nil _ hne
  obtain ⟨b, hb⟩ := List.exists_mem_of_ne_nil _ (hitems item hitem)
  obtain ⟨s, hs, -⟩ := (percent_eq_iff hitems hne).mp hall item hitem b hb
  cases hs

end FunctionalCoverage
