import Mathlib.Data.List.Induction
import Mathlib.Logic.Function.Basic
import Mathlib.Tactic.Common

namespace FilledMemory

variable {K V : Type} [DecidableEq K]

abbrev Store (K V : Type) := K → Option V

inductive Access (K V : Type) where
  | write (k : K) (v : V)
  | touch (k : K) (v : V)
deriving DecidableEq, Repr

namespace Access

def key : Access K V → K
  | .write k _ => k
  | .touch k _ => k

def written (k : K) : Access K V → Option V
  | .write k' v => if k' = k then some v else none
  | .touch _ _ => none

def touched (k : K) : Access K V → Option V
  | .write _ _ => none
  | .touch k' v => if k' = k then some v else none

end Access

def apply (m : Store K V) : Access K V → Store K V
  | .write k v => Function.update m k (some v)
  | .touch k v => if (m k).isSome then m else Function.update m k (some v)

def replay (m : Store K V) (as : List (Access K V)) : Store K V := as.foldl apply m

def empty : Store K V := fun _ => none

def lastWrite (as : List (Access K V)) (k : K) : Option V := as.reverse.findSome? (Access.written k)

def firstTouch (as : List (Access K V)) (k : K) : Option V := as.findSome? (Access.touched k)

def reference (as : List (Access K V)) (k : K) : Option V :=
  (lastWrite as k).or (firstTouch as k)

@[simp] theorem replay_nil (m : Store K V) : replay m [] = m := rfl

@[simp] theorem replay_append (m : Store K V) (as bs : List (Access K V)) :
    replay m (as ++ bs) = replay (replay m as) bs := List.foldl_append

@[simp] theorem replay_singleton (m : Store K V) (a : Access K V) : replay m [a] = apply m a := rfl

theorem lastWrite_append (as bs : List (Access K V)) (k : K) :
    lastWrite (as ++ bs) k = (lastWrite bs k).or (lastWrite as k) := by
  rw [lastWrite, List.reverse_append, List.findSome?_append]
  rfl

theorem firstTouch_append (as bs : List (Access K V)) (k : K) :
    firstTouch (as ++ bs) k = (firstTouch as k).or (firstTouch bs k) := List.findSome?_append

theorem lastWrite_concat (as : List (Access K V)) (a : Access K V) (k : K) :
    lastWrite (as ++ [a]) k = (a.written k).or (lastWrite as k) := by
  rw [lastWrite_append, lastWrite, List.reverse_singleton, List.findSome?_singleton]

theorem firstTouch_concat (as : List (Access K V)) (a : Access K V) (k : K) :
    firstTouch (as ++ [a]) k = (firstTouch as k).or (a.touched k) := by
  rw [firstTouch_append]
  exact congrArg _ List.findSome?_singleton

theorem lastWrite_flatMap {X : Type} (f : X → List (Access K V)) (xs : List X) (k : K) :
    lastWrite (xs.flatMap f) k = xs.reverse.findSome? fun x => lastWrite (f x) k := by
  induction xs with
  | nil => rfl
  | cons x xs ih =>
    rw [List.flatMap_cons, lastWrite_append, ih, List.reverse_cons, List.findSome?_append,
      List.findSome?_singleton]

theorem firstTouch_flatMap {X : Type} (f : X → List (Access K V)) (xs : List X) (k : K) :
    firstTouch (xs.flatMap f) k = xs.findSome? fun x => firstTouch (f x) k := by
  induction xs with
  | nil => rfl
  | cons x xs ih =>
    rw [List.flatMap_cons, firstTouch_append, ih, List.findSome?_cons]
    cases firstTouch (f x) k <;> rfl

theorem apply_lookup (m : Store K V) (a : Access K V) (k : K) :
    apply m a k = ((a.written k).or (m k)).or (a.touched k) := by
  cases a with
  | write k' v =>
    rcases eq_or_ne k' k with rfl | h
    · simp [apply, Access.written, Access.touched]
    · simp [apply, Access.written, Access.touched, h, Function.update_of_ne (Ne.symm h)]
  | touch k' v =>
    rcases eq_or_ne k' k with rfl | h
    · cases hm : m k' <;> simp [apply, Access.written, Access.touched, hm]
    · cases hm : m k' <;>
        simp [apply, Access.written, Access.touched, hm, h, Function.update_of_ne (Ne.symm h)]

theorem replay_lookup (m : Store K V) (as : List (Access K V)) (k : K) :
    replay m as k = ((lastWrite as k).or (m k)).or (firstTouch as k) := by
  induction as using List.reverseRecOn with
  | nil => exact (Option.or_none).symm
  | append_singleton as a ih =>
    rw [replay_append, replay_singleton, apply_lookup, ih, lastWrite_concat, firstTouch_concat]
    simp only [Option.or_assoc]

theorem replay_eq_reference (as : List (Access K V)) (k : K) :
    replay empty as k = reference as k := by
  rw [replay_lookup, empty, Option.or_none, reference]

theorem apply_of_ne (m : Store K V) {a : Access K V} {k : K} (h : a.key ≠ k) :
    apply m a k = m k := by
  rw [apply_lookup]
  cases a <;> simp_all [Access.written, Access.touched, Access.key]

theorem apply_isSome (m : Store K V) (a : Access K V) (k : K) :
    (apply m a k).isSome ↔ (m k).isSome ∨ a.key = k := by
  rw [apply_lookup, Option.isSome_or, Option.isSome_or]
  cases a with
  | write k' v => by_cases h : k' = k <;> simp [Access.written, Access.touched, Access.key, h]
  | touch k' v => by_cases h : k' = k <;> simp [Access.written, Access.touched, Access.key, h]

theorem replay_isSome (m : Store K V) (as : List (Access K V)) (k : K) :
    (replay m as k).isSome ↔ (m k).isSome ∨ ∃ a ∈ as, a.key = k := by
  induction as generalizing m with
  | nil => simp
  | cons a as ih =>
    rw [show replay m (a :: as) = replay (apply m a) as from rfl, ih, apply_isSome]
    simp [or_assoc]

theorem replay_flatMap_isSome {X : Type} (m : Store K V) (f : X → List (Access K V)) (xs : List X)
    (k : K) :
    (replay m (xs.flatMap f) k).isSome ↔ (m k).isSome ∨ ∃ x ∈ xs, ∃ a ∈ f x, a.key = k := by
  rw [replay_isSome]
  refine or_congr Iff.rfl ?_
  constructor
  · rintro ⟨a, ha, hk⟩
    obtain ⟨x, hx, hax⟩ := List.mem_flatMap.mp ha
    exact ⟨x, hx, a, hax, hk⟩
  · rintro ⟨x, hx, a, hax, hk⟩
    exact ⟨a, List.mem_flatMap.mpr ⟨x, hx, hax⟩, hk⟩

theorem replay_of_not_mem (m : Store K V) {as : List (Access K V)} {k : K}
    (h : ∀ a ∈ as, a.key ≠ k) : replay m as k = m k := by
  induction as generalizing m with
  | nil => rfl
  | cons a as ih =>
    have hrest := ih (apply m a) fun b hb => h b (List.mem_cons_of_mem a hb)
    exact hrest.trans (apply_of_ne m (h a List.mem_cons_self))

theorem apply_congr {m m' : Store K V} (a : Access K V) {k : K} (h : m k = m' k) :
    apply m a k = apply m' a k := by rw [apply_lookup, apply_lookup, h]

theorem replay_congr {m m' : Store K V} (as : List (Access K V)) {k : K} (h : m k = m' k) :
    replay m as k = replay m' as k := by rw [replay_lookup, replay_lookup, h]

def Apart (as bs : List (Access K V)) : Prop := ∀ a ∈ as, ∀ b ∈ bs, a.key ≠ b.key

theorem replay_comm {as bs : List (Access K V)} (h : Apart as bs) (m : Store K V) :
    replay (replay m as) bs = replay (replay m bs) as := by
  funext k
  by_cases hk : ∃ a ∈ as, a.key = k
  · obtain ⟨a, ha, rfl⟩ := hk
    have hbs (m : Store K V) : replay m bs a.key = m a.key :=
      replay_of_not_mem m fun b hb => (h a ha b hb).symm
    rw [hbs, replay_congr as (hbs m)]
  · have has (m : Store K V) : replay m as k = m k :=
      replay_of_not_mem m fun a ha hka => hk ⟨a, ha, hka⟩
    rw [has, replay_congr bs (has m)]

section Bursts

def writes (f : K → V) (ks : List K) : List (Access K V) := ks.map fun k => .write k (f k)

def touches (f : K → V) (ks : List K) : List (Access K V) := ks.map fun k => .touch k (f k)

omit [DecidableEq K] in
theorem key_writes (f : K → V) (ks : List K) (k : K) :
    (∃ a ∈ writes f ks, a.key = k) ↔ k ∈ ks := by simp [writes, Access.key]

omit [DecidableEq K] in
theorem key_touches (f : K → V) (ks : List K) (k : K) :
    (∃ a ∈ touches f ks, a.key = k) ↔ k ∈ ks := by simp [touches, Access.key]

theorem lastWrite_writes (f : K → V) (ks : List K) (k : K) :
    lastWrite (writes f ks) k = if k ∈ ks then some (f k) else none := by
  induction ks with
  | nil => rfl
  | cons k' ks ih =>
    have hcons : writes f (k' :: ks) = [.write k' (f k')] ++ writes f ks := rfl
    have hone : lastWrite [.write k' (f k')] k = if k' = k then some (f k') else none := by
      simp [lastWrite, Access.written]
    rw [hcons, lastWrite_append, ih, hone]
    rcases eq_or_ne k' k with rfl | hk
    · by_cases hmem : k' ∈ ks <;> simp [hmem]
    · simp [hk, hk.symm]

theorem lastWrite_touches (f : K → V) (ks : List K) (k : K) : lastWrite (touches f ks) k = none := by
  simp [lastWrite, touches, Access.written]

theorem firstTouch_touches (f : K → V) (ks : List K) (k : K) :
    firstTouch (touches f ks) k = if k ∈ ks then some (f k) else none := by
  induction ks with
  | nil => rfl
  | cons k' ks ih =>
    have hcons : touches f (k' :: ks) = [.touch k' (f k')] ++ touches f ks := rfl
    have hone : firstTouch [.touch k' (f k')] k = if k' = k then some (f k') else none := by
      simp [firstTouch, Access.touched]
    rw [hcons, firstTouch_append, ih, hone]
    rcases eq_or_ne k' k with rfl | hk
    · simp
    · simp [hk, hk.symm]

theorem firstTouch_writes (f : K → V) (ks : List K) (k : K) : firstTouch (writes f ks) k = none := by
  simp [firstTouch, writes, Access.touched]

theorem replay_writes (f : K → V) (m : Store K V) (ks : List K) (k : K) :
    replay m (writes f ks) k = if k ∈ ks then some (f k) else m k := by
  rw [replay_lookup, lastWrite_writes, firstTouch_writes, Option.or_none]
  split <;> rfl

theorem replay_touches (f : K → V) (m : Store K V) (ks : List K) (k : K) :
    replay m (touches f ks) k = (m k).or (if k ∈ ks then some (f k) else none) := by
  rw [replay_lookup, lastWrite_touches, firstTouch_touches, Option.none_or]

end Bursts

section Conflicts

variable [DecidableEq V]

def conflict (m : Store K V) : Access K V → Option (K × V × V)
  | .write _ _ => none
  | .touch k v =>
    match m k with
    | some e => if e = v then none else some (k, e, v)
    | none => none

def conflicts (m : Store K V) : List (Access K V) → List (K × V × V)
  | [] => []
  | a :: as => (conflict m a).toList ++ conflicts (apply m a) as

theorem conflicts_append (m : Store K V) (as bs : List (Access K V)) :
    conflicts m (as ++ bs) = conflicts m as ++ conflicts (replay m as) bs := by
  induction as generalizing m with
  | nil => rfl
  | cons a as ih => simp [conflicts, ih, replay]

omit [DecidableEq K] in
theorem conflict_eq_none_iff (m : Store K V) (a : Access K V) :
    conflict m a = none ↔ ∀ k v, a = .touch k v → ∀ e, m k = some e → e = v := by
  cases a with
  | write k v => simp [conflict]
  | touch k v =>
    cases hm : m k with
    | none => simp [conflict, hm]
    | some e => by_cases h : e = v <;> simp [conflict, hm, h]

theorem conflicts_writes (f : K → V) (m : Store K V) (ks : List K) :
    conflicts m (writes f ks) = [] := by
  induction ks generalizing m with
  | nil => rfl
  | cons k ks ih => exact ih (Function.update m k (some (f k)))

theorem conflicts_touches (f : K → V) (m : Store K V) (ks : List K) :
    conflicts m (touches f ks) = [] ↔ ∀ k ∈ ks, ∀ e, m k = some e → e = f k := by
  induction ks generalizing m with
  | nil => simp [conflicts, touches]
  | cons k ks ih =>
    have hstep : conflicts m (touches f (k :: ks)) = (conflict m (.touch k (f k))).toList ++
        conflicts (apply m (.touch k (f k))) (touches f ks) := rfl
    have hlook (j : K) : apply m (.touch k (f k)) j =
        (m j).or (if k = j then some (f k) else none) := by
      rw [apply_lookup]; simp [Access.written, Access.touched]
    have hone : conflict m (.touch k (f k)) = none ↔ ∀ e, m k = some e → e = f k := by
      rw [conflict_eq_none_iff]
      exact ⟨fun h => h k (f k) rfl, by rintro h _ _ ⟨⟩; exact h⟩
    rw [hstep, List.append_eq_nil_iff, Option.toList_eq_nil_iff, hone, ih]
    constructor
    · rintro ⟨hk, hks⟩ j hj e he
      rcases List.mem_cons.mp hj with rfl | hj
      · exact hk e he
      · exact hks j hj e (by rw [hlook, he]; rfl)
    · intro h
      refine ⟨h k (by simp), ?_⟩
      intro j hj e he
      rw [hlook] at he
      rcases eq_or_ne k j with rfl | hkj
      · cases hm : m k with
        | none => simpa [hm, eq_comm] using he
        | some v =>
          have hv : v = e := by simpa [hm] using he
          exact h k (by simp) e (hv ▸ hm)
      · exact h j (by simp [hj]) e (by simpa [hkj] using he)

omit [DecidableEq K] in
theorem conflict_congr {m m' : Store K V} {a : Access K V} (h : m a.key = m' a.key) :
    conflict m a = conflict m' a := by
  cases a with
  | write k v => rfl
  | touch k v =>
    have hk : m k = m' k := h
    simp only [conflict, hk]

theorem conflicts_congr {m m' : Store K V} {as : List (Access K V)}
    (h : ∀ a ∈ as, m a.key = m' a.key) : conflicts m as = conflicts m' as := by
  induction as generalizing m m' with
  | nil => rfl
  | cons a as ih =>
    have hrest := ih fun b hb => apply_congr a (h b (List.mem_cons_of_mem a hb))
    exact congrArg₂ (·.toList ++ ·) (conflict_congr (h a List.mem_cons_self)) hrest

theorem conflicts_replay {as bs : List (Access K V)} (h : Apart as bs) (m : Store K V) :
    conflicts (replay m as) bs = conflicts m bs :=
  conflicts_congr fun b hb => replay_of_not_mem m fun a ha => h a ha b hb

theorem conflicts_range (g : Nat → Access K V) (m : Store K V) (n : Nat) :
    conflicts m ((List.range n).map g) =
      (List.range n).filterMap fun i => conflict (replay m ((List.range i).map g)) (g i) := by
  induction n with
  | zero => rfl
  | succ n ih =>
    rw [List.range_succ, List.map_append, conflicts_append, ih, List.filterMap_append]
    cases hc : conflict (replay m ((List.range n).map g)) (g n) <;>
      simp [conflicts, hc]

end Conflicts

end FilledMemory
