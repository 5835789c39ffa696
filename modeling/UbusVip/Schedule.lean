import UbusVip.Timeline

namespace UbusVip

open SlaveSequence (Draw)

namespace Transfer

def tailSpan (read : Bool) : Nat := if read then 0 else 1

end Transfer

namespace Timeline

open Transfer (tailSpan)

variable {draw : Nat → Draw} {tl : Timeline}

def shown (tl : Timeline) : List Item :=
  match tl.phase with
  | .address tr => [tr]
  | _ => []

def busy (draw : Nat → Draw) (tl : Timeline) : Nat :=
  match tl.phase with
  | .idle _ => 0
  | .command late tr =>
    2 + (draw (tl.past ++ late.toList).length).waitState + tr.val.size + tailSpan tr.val.read
  | .address tr => 1 + (draw tl.past.length).waitState + tr.val.size + tailSpan tr.val.read
  | .wait t i => t.waits - i + t.size + tailSpan t.read
  | .beat t i => t.size - i + tailSpan t.read
  | .tail _ _ => 1

theorem busy_advance (h : 0 < tl.busy draw) :
    (tl.advance draw).busy draw + 1 = tl.busy draw := by
  obtain ⟨past, phase, mem⟩ := tl
  cases phase with
  | idle late => exact absurd h (lt_irrefl 0)
  | command late tr => simp only [advance, busy]; omega
  | address tr =>
    have hw := Transfer.serve_waits mem tr (draw past.length)
    have hs : (Transfer.serve mem tr (draw past.length)).size = tr.val.size := rfl
    have hr : (Transfer.serve mem tr (draw past.length)).read = tr.val.read := rfl
    by_cases h0 : 0 < (Transfer.serve mem tr (draw past.length)).waits
    · simp only [advance, dif_pos h0, busy, hs, hr]; omega
    · simp only [advance, dif_neg h0, firstBeat, busy, hs, hr]; omega
  | wait t i =>
    by_cases h0 : i + 1 < t.waits
    · simp only [advance, dif_pos h0, busy]; omega
    · simp only [advance, dif_neg h0, firstBeat, busy]; omega
  | beat t i =>
    by_cases h0 : i + 1 < t.size
    · simp only [advance, dif_pos h0, busy]; omega
    · have hi := i.isLt
      cases hr : t.read with
      | true => simp only [advance, dif_neg h0, hr, dif_pos, busy, tailSpan, if_true]; omega
      | false =>
        simp only [advance, dif_neg h0, hr, Bool.false_eq_true, dite_false, busy, tailSpan, if_false]
        omega
  | tail t hr => rfl

theorem accept_of_busy (h : 0 < tl.busy draw) (offer : Option Item) : tl.accept offer = tl := by
  obtain ⟨past, phase, mem⟩ := tl
  cases phase with
  | idle late => exact absurd h (lt_irrefl 0)
  | command late tr | address tr | wait t i | beat t i | tail t hr => rfl

theorem idle_of_not_busy (h : ¬0 < tl.busy draw) : ∃ late, tl.phase = .idle late := by
  obtain ⟨past, phase, mem⟩ := tl
  cases phase with
  | idle late => exact ⟨late, rfl⟩
  | command late tr | address tr | tail t hr => simp [busy] at h
  | wait t i | beat t i => simp only [busy] at h; have := i.isLt; have := t.size_pos; omega

theorem items_of_not_busy (h : ¬0 < tl.busy draw) : tl.finished.map (·.item) = tl.items := by
  obtain ⟨past, phase, mem⟩ := tl
  cases phase with
  | idle late => simp [finished, items, opened, pending]
  | command late tr | address tr | tail t hr => simp [busy] at h
  | wait t i | beat t i => simp only [busy] at h; have := i.isLt; have := t.size_pos; omega

@[simp] theorem finished_accept (offer : Option Item) : (tl.accept offer).finished = tl.finished := by
  obtain ⟨past, phase, mem⟩ := tl
  cases phase <;> cases offer <;> rfl

@[simp] theorem opened_accept (offer : Option Item) : (tl.accept offer).opened = tl.opened := by
  obtain ⟨past, phase, mem⟩ := tl
  cases phase <;> cases offer <;> rfl

@[simp] theorem reported_accept (offer : Option Item) : (tl.accept offer).reported = tl.reported := by
  obtain ⟨past, phase, mem⟩ := tl
  cases phase <;> cases offer <;> rfl

@[simp] theorem mem_accept (offer : Option Item) : (tl.accept offer).mem = tl.mem := by
  obtain ⟨past, phase, mem⟩ := tl
  cases phase <;> cases offer <;> rfl

theorem opened_advance (draw : Nat → Draw) (tl : Timeline) :
    (tl.advance draw).opened = tl.opened ++
      tl.shown.map fun tr => Transfer.serve tl.mem tr (draw tl.opened.length) := by
  obtain ⟨past, phase, mem⟩ := tl
  cases phase with
  | idle late => simp [advance, opened, shown]
  | command late tr => simp [advance, opened, shown]
  | address tr =>
    simp only [advance, shown, List.map_singleton]
    split <;> rfl
  | wait t i =>
    simp only [advance, shown, List.map_nil, List.append_nil]
    split <;> rfl
  | beat t i =>
    simp only [advance, shown, List.map_nil, List.append_nil]
    split
    · rfl
    · split <;> rfl
  | tail t hr => simp [advance, opened, shown]

theorem items_advance (draw : Nat → Draw) (tl : Timeline) : (tl.advance draw).items = tl.items := by
  have hpend : tl.pending = tl.shown ++ (tl.advance draw).pending := by
    obtain ⟨past, phase, mem⟩ := tl
    cases phase with
    | idle late | command late tr | tail t hr => rfl
    | address tr => simp only [advance]; split <;> rfl
    | wait t i => simp only [advance]; split <;> rfl
    | beat t i =>
      simp only [advance]
      split
      · rfl
      · split <;> rfl
  have hserve : ((·.item) ∘ fun tr => Transfer.serve tl.mem tr (draw tl.opened.length)) = id := rfl
  simp [items, opened_advance, hpend, hserve]

theorem opened_step (env : Env) (k : Nat) :
    (run env (k + 1)).opened.map (·.item) =
      (run env k).opened.map (·.item) ++ (run env k).shown := by
  have hserve (m : SlaveSequence.Mem) (d : SlaveSequence.Draw) :
      ((·.item) ∘ fun tr => Transfer.serve m tr d) = id := rfl
  rw [show run env (k + 1) =
    ((run env k).advance env.draw).accept (env.offer k) from rfl]
  simp [opened_advance, hserve]

theorem finished_prefix_opened (tl : Timeline) : tl.finished <+: tl.opened := by
  obtain ⟨past, phase, mem⟩ := tl
  cases phase with
  | idle late | command late tr | address tr => exact List.prefix_rfl
  | wait t i | beat t i | tail t hr => exact List.prefix_append _ _

theorem reported_prefix_opened (tl : Timeline) : tl.reported <+: tl.opened := by
  obtain ⟨past, phase, mem⟩ := tl
  cases phase with
  | idle late | command late tr =>
    cases past with
    | nil => exact List.prefix_rfl
    | cons t past => exact List.prefix_append _ _
  | address tr => exact List.prefix_rfl
  | wait t i | beat t i => exact List.prefix_append _ _
  | tail t hr =>
    cases past with
    | nil => exact List.prefix_rfl
    | cons u past => exact List.prefix_append _ _

theorem past_prefix_reported (tl : Timeline) : tl.past <+: tl.reported := by
  obtain ⟨past, phase, mem⟩ := tl
  cases past with
  | nil => exact List.nil_prefix
  | cons u past => cases phase <;> exact List.prefix_rfl

theorem finished_prefix_past (draw : Nat → Draw) (tl : Timeline) :
    tl.finished <+: (tl.advance draw).past := by
  obtain ⟨past, phase, mem⟩ := tl
  cases phase with
  | idle late | command late tr | address tr | wait t i | beat t i => exact List.prefix_rfl
  | tail t hr => exact List.prefix_append _ _

theorem finished_prefix_reported (env : Env) (k : Nat) :
    (run env k).finished <+: (run env (k + 1)).reported := by
  have hstep : run env (k + 1) = accept (env.offer k) ((run env k).advance env.draw) := rfl
  rw [hstep, reported_accept]
  exact (finished_prefix_past env.draw _).trans (past_prefix_reported _)

theorem finished_advance (h : 1 < tl.busy draw) : (tl.advance draw).finished = tl.finished := by
  obtain ⟨past, phase, mem⟩ := tl
  cases phase with
  | idle late | tail t hr => simp [busy] at h
  | command late tr => rfl
  | address tr => simp only [advance]; split <;> rfl
  | wait t i => simp only [advance]; split <;> rfl
  | beat t i =>
    have hi : i + 1 < t.size ∨ t.read = false := by
      by_contra! hc
      simp only [busy, hc.2, tailSpan, if_true] at h
      omega
    simp only [advance]
    split
    · rfl
    · have hr : t.read = false := hi.resolve_left (by assumption)
      simp [hr, finished]

theorem run_busy {env : Env} {k j : Nat} (hj : j < (run env k).busy env.draw) :
    (run env (k + j)).busy env.draw = (run env k).busy env.draw - j ∧
      (run env (k + j)).finished = (run env k).finished := by
  induction j with
  | zero => exact ⟨rfl, rfl⟩
  | succ j ih =>
    obtain ⟨hbusy, hfin⟩ := ih (by omega)
    have hnow : 0 < (run env (k + j)).busy env.draw := by omega
    have hadv := busy_advance hnow
    have hpos : 0 < ((run env (k + j)).advance env.draw).busy env.draw := by omega
    have hstep : run env (k + (j + 1)) = (run env (k + j)).advance env.draw := accept_of_busy hpos _
    rw [hstep]
    exact ⟨by omega, (finished_advance (by omega)).trans hfin⟩

theorem finished_at (env : Env) (k : Nat) :
    (run env (k + (run env k).busy env.draw)).finished.map (·.item) = (run env k).items := by
  generalize hn : (run env k).busy env.draw = n
  induction n generalizing k with
  | zero =>
    have hidle : ¬0 < (run env k).busy env.draw := by omega
    exact items_of_not_busy hidle
  | succ n ih =>
    have hstep : run env (k + 1) = accept (env.offer k) ((run env k).advance env.draw) := rfl
    have hbusy : 0 < (run env k).busy env.draw := by omega
    have hadv := busy_advance hbusy
    by_cases hb : 0 < ((run env k).advance env.draw).busy env.draw
    · rw [accept_of_busy hb] at hstep
      have hitems : (run env (k + 1)).items = (run env k).items := by
        rw [hstep, items_advance]
      rw [← hitems, ← ih (k + 1) (by rw [hstep]; omega), Nat.add_right_comm, Nat.add_assoc]
    · have hz : n = 0 := by omega
      rw [hz, Nat.zero_add, hstep, finished_accept, items_of_not_busy hb, items_advance]

theorem advance_of_not_busy (h : ¬0 < tl.busy draw) : ¬0 < (tl.advance draw).busy draw := by
  obtain ⟨past, phase, mem⟩ := tl
  cases phase with
  | idle late => exact h
  | command late tr | address tr | tail t hr => simp [busy] at h
  | wait t i | beat t i => simp only [busy] at h; have := i.isLt; have := t.size_pos; omega

theorem busy_advance_sub (draw : Nat → Draw) (tl : Timeline) :
    (tl.advance draw).busy draw = tl.busy draw - 1 := by
  rcases Nat.eq_zero_or_pos (tl.busy draw) with h | h
  · have hadv : ¬0 < (tl.advance draw).busy draw := advance_of_not_busy (by omega)
    omega
  · have hadv := busy_advance h
    omega

@[simp] theorem accept_none (tl : Timeline) : tl.accept none = tl := by
  obtain ⟨past, phase, mem⟩ := tl
  cases phase <;> rfl

theorem run_no_offer {env : Env} {k : Nat} (h : ∀ j, k ≤ j → env.offer j = none) (j : Nat) :
    (run env (k + j)).busy env.draw = (run env k).busy env.draw - j ∧
      (run env (k + j)).items = (run env k).items := by
  induction j with
  | zero => exact ⟨rfl, rfl⟩
  | succ j ih =>
    have hstep : run env (k + j + 1) = (run env (k + j)).advance env.draw := by
      rw [← accept_none ((run env (k + j)).advance env.draw), ← h (k + j) (by omega)]
      rfl
    rw [← Nat.add_assoc, hstep, items_advance]
    refine ⟨?_, ih.2⟩
    by_cases hb : 0 < (run env (k + j)).busy env.draw
    · have hadv := busy_advance hb
      omega
    · have hadv := advance_of_not_busy hb
      omega

end Timeline

end UbusVip
