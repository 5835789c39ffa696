import Mathlib.Data.List.Basic
import Mathlib.Tactic.Common

-- a sweep visits targets one after another and draws for each whose key is not covered yet;
-- a draw covers one key, its target's or another
structure Sweep (M T B : Type) where
  key : T → B
  hit : Nat → T → B
  covers : M → B → Bool
  count : M → Nat
  visit : M → T → M
  covers_visit : ∀ m t b, covers (visit m t) b = true ↔
    covers m b = true ∨ covers m (key t) = false ∧ hit (count m) t = b
  count_visit : ∀ m t, count (visit m t) = count m + if covers m (key t) then 0 else 1

namespace Sweep

variable {M T B : Type} (S : Sweep M T B)

def OnTarget : M → List T → Prop
  | _, [] => True
  | m, t :: ts =>
    (S.covers m (S.key t) = false → S.hit (S.count m) t = S.key t) ∧ OnTarget (S.visit m t) ts

def missing (m : M) (ts : List T) : List T := ts.filter fun t => !S.covers m (S.key t)

variable {S}

theorem covers_mono {m : M} {b : B} (hb : S.covers m b = true) (ts : List T) :
    S.covers (ts.foldl S.visit m) b = true := by
  induction ts generalizing m with
  | nil => exact hb
  | cons t ts ih => exact ih ((S.covers_visit m t b).mpr (.inl hb))

theorem covers_visit_of_ne {m : M} {t : T} {b : B}
    (ht : S.covers m (S.key t) = false → S.hit (S.count m) t = S.key t) (hb : S.key t ≠ b) :
    S.covers (S.visit m t) b = S.covers m b := by
  rw [Bool.eq_iff_iff, S.covers_visit]
  constructor
  · rintro (h | ⟨hmiss, hhit⟩)
    · exact h
    · exact absurd ((ht hmiss).symm.trans hhit) hb
  · exact .inl

theorem covers_visit_self {m : M} {t : T}
    (ht : S.covers m (S.key t) = false → S.hit (S.count m) t = S.key t) :
    S.covers (S.visit m t) (S.key t) = true := by
  rw [S.covers_visit]
  cases hc : S.covers m (S.key t) with
  | true => exact .inl rfl
  | false => exact .inr ⟨rfl, ht hc⟩

theorem covers_foldl_of_not_mem {ts : List T} {m : M} (h : S.OnTarget m ts) {b : B}
    (hb : ∀ t ∈ ts, S.key t ≠ b) : S.covers (ts.foldl S.visit m) b = S.covers m b := by
  induction ts generalizing m with
  | nil => rfl
  | cons t ts ih =>
    have hvisit := covers_visit_of_ne h.1 (hb t (List.mem_cons_self ..))
    exact (ih h.2 fun u hu => hb u (List.mem_cons_of_mem t hu)).trans hvisit

theorem OnTarget.closes {ts : List T} {m : M} (h : S.OnTarget m ts) :
    ∀ t ∈ ts, S.covers (ts.foldl S.visit m) (S.key t) = true := by
  induction ts generalizing m with
  | nil => nofun
  | cons t ts ih =>
    intro u hu
    rcases List.mem_cons.mp hu with rfl | hu
    · exact covers_mono (covers_visit_self h.1) ts
    · exact ih h.2 u hu

theorem onTarget_of_closes {ts : List T} (hnodup : (ts.map S.key).Nodup) {m : M}
    (h : ∀ t ∈ ts, S.covers (ts.foldl S.visit m) (S.key t) = true) : S.OnTarget m ts := by
  induction ts generalizing m with
  | nil => trivial
  | cons t ts ih =>
    rw [List.map_cons, List.nodup_cons] at hnodup
    have hrest : S.OnTarget (S.visit m t) ts :=
      ih hnodup.2 fun u hu => h u (List.mem_cons_of_mem t hu)
    -- no later draw reaches the key of t, so it was covered by its own visit
    have hnow : S.covers (S.visit m t) (S.key t) = true := by
      have hother : ∀ u ∈ ts, S.key u ≠ S.key t := fun u hu heq =>
        hnodup.1 (heq ▸ List.mem_map_of_mem hu)
      rw [← covers_foldl_of_not_mem hrest hother]
      exact h t (List.mem_cons_self ..)
    refine ⟨?_, hrest⟩
    intro hmiss
    rcases (S.covers_visit m t (S.key t)).mp hnow with hcov | ⟨-, hhit⟩
    · rw [hmiss] at hcov; cases hcov
    · exact hhit

theorem closes_iff_onTarget {ts : List T} (hnodup : (ts.map S.key).Nodup) (m : M) :
    (∀ t ∈ ts, S.covers (ts.foldl S.visit m) (S.key t) = true) ↔ S.OnTarget m ts :=
  ⟨onTarget_of_closes hnodup, OnTarget.closes⟩

theorem missing_visit {m : M} {t : T} {ts : List T}
    (ht : S.covers m (S.key t) = false → S.hit (S.count m) t = S.key t)
    (hts : S.key t ∉ ts.map S.key) : S.missing (S.visit m t) ts = S.missing m ts := by
  refine List.filter_congr ?_
  intro u hu
  rw [covers_visit_of_ne ht fun heq => hts (heq ▸ List.mem_map_of_mem hu)]

theorem onTarget_iff_missing {ts : List T} (hnodup : (ts.map S.key).Nodup) (m : M) :
    S.OnTarget m ts ↔
      ∀ k t, (S.missing m ts)[k]? = some t → S.hit (S.count m + k) t = S.key t := by
  induction ts generalizing m with
  | nil => exact iff_of_true trivial nofun
  | cons t ts ih =>
    rw [List.map_cons, List.nodup_cons] at hnodup
    have hcount := S.count_visit m t
    cases hc : S.covers m (S.key t) with
    | true =>
      have hmiss : S.missing m (t :: ts) = S.missing m ts := by simp [missing, hc]
      have ht : S.covers m (S.key t) = false → S.hit (S.count m) t = S.key t := by
        rw [hc]; nofun
      rw [hc, if_pos rfl, Nat.add_zero] at hcount
      rw [OnTarget, and_iff_right ht, ih hnodup.2, missing_visit ht hnodup.1, hcount, hmiss]
    | false =>
      have hmiss : S.missing m (t :: ts) = t :: S.missing m ts := by simp [missing, hc]
      rw [hc, if_neg Bool.false_ne_true] at hcount
      rw [OnTarget, hmiss, hc, imp_iff_right rfl, ih hnodup.2, hcount]
      constructor
      · rintro ⟨ht, hrest⟩ k u hk
        cases k with
        | zero => cases hk; exact ht
        | succ k =>
          rw [← hrest k u (by rwa [missing_visit (fun _ => ht) hnodup.1]), Nat.add_right_comm]
          rfl
      · intro h
        have ht := h 0 t rfl
        refine ⟨ht, ?_⟩
        intro k u hk
        rw [missing_visit (fun _ => ht) hnodup.1] at hk
        rw [Nat.add_right_comm]
        exact h (k + 1) u hk

end Sweep
