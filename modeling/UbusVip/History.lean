import UbusVip.Schedule

namespace UbusVip

open FilledMemory (replay writes touches)
open SlaveSequence (Draw Mem respond)

abbrev Stimulus := Item × Draw

def stimuli (draw : Nat → Draw) (items : List Item) : List Stimulus :=
  items.mapIdx fun j tr => (tr, draw j)

theorem stimuli_concat (draw : Nat → Draw) (items : List Item) (tr : Item) :
    stimuli draw (items ++ [tr]) = stimuli draw items ++ [(tr, draw items.length)] := by
  simp [stimuli, List.mapIdx_append]

theorem stimuli_mono (draw : Nat → Draw) {l r : List Item} (h : l <+: r) :
    stimuli draw l <+: stimuli draw r := by
  obtain ⟨t, rfl⟩ := h
  rw [stimuli, stimuli, List.mapIdx_append]
  exact List.prefix_append _ _

@[simp] theorem length_stimuli (draw : Nat → Draw) (items : List Item) :
    (stimuli draw items).length = items.length := List.length_mapIdx

theorem stimuli_fst (draw : Nat → Draw) (items : List Item) :
    (stimuli draw items).map Prod.fst = items := by
  induction items using List.reverseRecOn with
  | nil => rfl
  | append_singleton items tr ih => simp [stimuli_concat, ih]

def Covers (tr : Item) (a : Nat) : Prop := a ∈ tr.val.span

instance (tr : Item) (a : Nat) : Decidable (Covers tr a) := by
  unfold Covers; infer_instance

namespace Stimulus

def fillAt (x : Stimulus) (a : Nat) : Word := SlaveSequence.fillAt x.1.val x.2 a

-- what one served request does to the slave memory; a request object still holds zeros then
def accesses (x : Stimulus) : List (FilledMemory.Access Nat Word) :=
  if x.1.val.read then touches x.fillAt x.1.val.span else writes (fun _ => 0) x.1.val.span

theorem accesses_eq (x : Stimulus) : SlaveSequence.accesses (request x.1) x.2 = x.accesses := by
  rw [accesses]
  cases hr : x.1.val.read with
  | true =>
    have hw : (request x.1).write = false := x.1.write_of_read hr
    rw [SlaveSequence.accesses_read hw]
    rfl
  | false =>
    have hw : (request x.1).write = true := x.1.write_of_not_read hr
    have hzero : (request x.1).byteAt = fun _ => 0 := by
      funext a; simp [Packet.byteAt]
    rw [SlaveSequence.accesses_write hw, hzero]
    rfl

end Stimulus

def held (hist : List Stimulus) : Mem := replay (fun _ => none) (hist.flatMap Stimulus.accesses)

@[simp] theorem held_nil : held [] = fun _ => none := rfl

theorem held_concat (hist : List Stimulus) (x : Stimulus) :
    held (hist ++ [x]) = replay (held hist) x.accesses := by
  simp [held]

theorem respond_held (hist : List Stimulus) (x : Stimulus) :
    (respond (held hist) (request x.1) x.2).1 = held (hist ++ [x]) := by
  rw [SlaveSequence.respond_mem (request_dir x.1), x.accesses_eq, held_concat]

theorem setWidth_eq_zero (b : Byte) : b.setWidth 32 = 0 ↔ b = 0 := by
  constructor
  · intro h
    have hnat := congrArg BitVec.toNat h
    apply BitVec.eq_of_toNat_eq
    have := b.isLt
    simpa [BitVec.toNat_setWidth, Nat.mod_eq_of_lt (show b.toNat < 4294967296 by omega)] using hnat
  · rintro rfl; rfl

def Written (hist : List Stimulus) (a : Nat) : Prop :=
  ∃ x ∈ hist, x.1.val.write = true ∧ Covers x.1 a

theorem written_iff (hist : List Stimulus) (a : Nat) :
    Written hist a ↔ ∃ w ∈ hist.map Prod.fst, w.val.write = true ∧ Covers w a := by
  simp [Written]

theorem written_concat (hist : List Stimulus) (x : Stimulus) (a : Nat) :
    Written (hist ++ [x]) a ↔ Written hist a ∨ x.1.val.write = true ∧ Covers x.1 a := by
  simp [Written, or_and_right, exists_or]

theorem held_write {x : Stimulus} (hw : x.1.val.write = true) (hist : List Stimulus) (a : Nat) :
    held (hist ++ [x]) a = if Covers x.1 a then some 0 else held hist a := by
  have hr := x.1.read_of_write hw
  rw [held_concat, Stimulus.accesses, if_neg (by simp [hr]), FilledMemory.replay_writes]
  rfl

theorem held_read {x : Stimulus} (hr : x.1.val.read = true) (hist : List Stimulus) (a : Nat) :
    held (hist ++ [x]) a =
      (held hist a).or (if Covers x.1 a then some (x.fillAt a) else none) := by
  rw [held_concat, Stimulus.accesses, if_pos hr, FilledMemory.replay_touches]
  rfl

theorem held_cases (hist : List Stimulus) (a : Nat) :
    Written hist a ∧ held hist a = some 0 ∨
      ¬Written hist a ∧ ∀ v, held hist a = some v → ∃ f : SlaveSequence.Fill, v = f.val := by
  induction hist using List.reverseRecOn with
  | nil => exact .inr ⟨by simp [Written], by simp⟩
  | append_singleton hist x ih =>
    cases hr : x.1.val.read with
    | false =>
      have hw := x.1.write_of_not_read hr
      rw [written_concat, held_write hw]
      by_cases hc : Covers x.1 a
      · exact .inl ⟨.inr ⟨hw, hc⟩, if_pos hc⟩
      · simpa [hc] using ih
    | true =>
      have hw := x.1.write_of_read hr
      rw [written_concat, held_read hr]
      rcases ih with ⟨hwritten, hzero⟩ | ⟨hfresh, hfill⟩
      · exact .inl ⟨.inl hwritten, by simp [hzero]⟩
      · refine .inr ⟨by simp [hfresh, hw], ?_⟩
        intro v hv
        cases hm : held hist a with
        | some u => exact hfill v (by simpa [hm] using hv)
        | none =>
          by_cases hc : Covers x.1 a
          · simp only [hm, if_pos hc, Option.none_or, Option.some_inj] at hv
            exact ⟨x.2.fill (a - x.1.val.addr.toNat), hv.symm⟩
          · simp [hm, hc] at hv

theorem fill_byte_ne_zero (f : SlaveSequence.Fill) : f.val.setWidth 8 ≠ 0 := by
  intro h
  have hlo := f.byte_range.1
  rw [h] at hlo
  exact absurd hlo (by decide)

def Transfer.after (hist : List Stimulus) (x : Stimulus) : Transfer :=
  .serve (held hist) x.1 x.2

theorem Transfer.after_byte_read {hist : List Stimulus} {x : Stimulus}
    (hr : x.1.val.read = true) {i : Nat} (hi : i < x.1.val.size) :
    (Transfer.after hist x).byte i =
      ((held (hist ++ [x]) (x.1.val.addr.toNat + i)).getD 0).setWidth 8 := by
  have hread : (Transfer.after hist x).read = true := hr
  have hlen : (request x.1).data.length = x.1.val.size := List.length_replicate
  rw [Transfer.byte, if_pos hread]
  change (respond (held hist) (request x.1) x.2).2.byte i = _
  rw [SlaveSequence.respond_read_byte (request_dir x.1) hr hlen x.2 _ hi, SlaveSequence.readByte,
    x.accesses_eq, ← held_concat]
  rfl

theorem Transfer.after_byte_write {hist : List Stimulus} {x : Stimulus}
    (hr : x.1.val.read = false) (i : Nat) : (Transfer.after hist x).byte i = x.1.val.byte i := by
  have hread : ¬(Transfer.after hist x).read = true := by
    rw [show (Transfer.after hist x).read = x.1.val.read from rfl, hr]; decide
  rw [Transfer.byte, if_neg hread]
  rfl

theorem Transfer.after_byte_eq_zero {hist : List Stimulus} {x : Stimulus}
    (hr : x.1.val.read = true) {i : Nat} (hi : i < x.1.val.size) :
    (Transfer.after hist x).byte i = 0 ↔ Written hist (x.1.val.addr.toNat + i) := by
  have hcov : Covers x.1 (x.1.val.addr.toNat + i) := (x.1.val.mem_span _).mpr (by omega)
  rw [Transfer.after_byte_read hr hi, held_read hr, if_pos hcov]
  rcases held_cases hist (x.1.val.addr.toNat + i) with ⟨hwritten, hzero⟩ | ⟨hfresh, hfill⟩
  · simp [hzero, hwritten]
  · refine iff_of_false ?_ hfresh
    intro hz
    cases hm : held hist (x.1.val.addr.toNat + i) with
    | some v =>
      obtain ⟨f, rfl⟩ := hfill v hm
      exact fill_byte_ne_zero f (by simpa [hm] using hz)
    | none => exact fill_byte_ne_zero (x.2.fill _) (by simpa [hm, Stimulus.fillAt, SlaveSequence.fillAt] using hz)

def transfersFrom (hist : List Stimulus) : List Stimulus → List Transfer
  | [] => []
  | x :: xs => Transfer.after hist x :: transfersFrom (hist ++ [x]) xs

def transfers (xs : List Stimulus) : List Transfer := transfersFrom [] xs

@[simp] theorem length_transfersFrom (hist xs : List Stimulus) :
    (transfersFrom hist xs).length = xs.length := by
  induction xs generalizing hist with
  | nil => rfl
  | cons x xs ih => exact congrArg (· + 1) (ih _)

theorem length_transfers (xs : List Stimulus) : (transfers xs).length = xs.length :=
  length_transfersFrom [] xs

theorem transfersFrom_append (hist xs ys : List Stimulus) :
    transfersFrom hist (xs ++ ys) = transfersFrom hist xs ++ transfersFrom (hist ++ xs) ys := by
  induction xs generalizing hist with
  | nil => simp [transfersFrom]
  | cons x xs ih => simp [transfersFrom, ih]

theorem transfers_concat (xs : List Stimulus) (x : Stimulus) :
    transfers (xs ++ [x]) = transfers xs ++ [.after xs x] := transfersFrom_append [] xs [x]

theorem transfers_take {ts : List Transfer} {xs : List Stimulus} (h : ts <+: transfers xs) :
    ts = transfers (xs.take ts.length) := by
  have hle : ts.length ≤ xs.length := by simpa [length_transfers] using h.length_le
  have hsplit : transfers xs = transfers (xs.take ts.length) ++
      transfersFrom (xs.take ts.length) (xs.drop ts.length) := by
    conv_lhs => rw [← List.take_append_drop ts.length xs]
    exact transfersFrom_append [] _ _
  refine List.IsPrefix.eq_of_length (List.prefix_of_prefix_length_le h ?_ ?_) ?_
  · rw [hsplit]; exact List.prefix_append _ _
  · simp [length_transfers, hle]
  · simp [length_transfers, hle]

theorem transfers_get (xs : List Stimulus) (j : Nat) :
    (transfers xs)[j]? = xs[j]?.map (Transfer.after (xs.take j)) := by
  induction xs using List.reverseRecOn with
  | nil => rfl
  | append_singleton xs x ih =>
    have hlen := length_transfers xs
    rw [transfers_concat]
    rcases lt_trichotomy j xs.length with hj | rfl | hj
    · rw [List.getElem?_append_left (hlen ▸ hj), List.getElem?_append_left hj, ih,
        List.take_append_of_le_length hj.le]
    · rw [← hlen, List.getElem?_concat_length, hlen, List.getElem?_concat_length]
      simp
    · rw [List.getElem?_eq_none (by simp [hlen]; omega), List.getElem?_eq_none (by simp; omega)]
      rfl

structure Timeline.Recorded (draw : Nat → Draw) (tl : Timeline) : Prop where
  opened : tl.opened = transfers (stimuli draw (tl.opened.map (·.item)))
  mem : tl.mem = held (stimuli draw (tl.opened.map (·.item)))

namespace Timeline

variable {draw : Nat → Draw} {tl : Timeline}

theorem mem_advance (draw : Nat → Draw) (tl : Timeline) :
    (tl.advance draw).mem =
      tl.shown.foldl (fun m tr => (respond m (request tr) (draw tl.opened.length)).1) tl.mem := by
  obtain ⟨past, phase, mem⟩ := tl
  cases phase <;> rfl

theorem Recorded.advance (h : tl.Recorded draw) : (tl.advance draw).Recorded draw := by
  have hopen := opened_advance draw tl
  have hmem := mem_advance draw tl
  rcases hs : tl.shown with _ | ⟨tr, rest⟩
  · rw [hs] at hopen hmem
    simp only [List.map_nil, List.append_nil, List.foldl_nil] at hopen hmem
    exact ⟨by rw [hopen]; exact h.opened, by rw [hopen, hmem]; exact h.mem⟩
  · have hrest : rest = [] := by
      obtain ⟨past, phase, mem⟩ := tl
      cases phase <;> simp [shown] at hs
      exact hs.2
    subst hrest
    rw [hs] at hopen hmem
    simp only [List.map_singleton, List.foldl_cons, List.foldl_nil] at hopen hmem
    have hitems : (tl.advance draw).opened.map (·.item) = tl.opened.map (·.item) ++ [tr] := by
      rw [hopen]; simp [Transfer.serve]
    have hx := respond_held (stimuli draw (tl.opened.map (·.item))) (tr, draw tl.opened.length)
    constructor
    · rw [hitems, stimuli_concat, transfers_concat, ← h.opened, hopen, List.length_map,
        Transfer.after, ← h.mem]
    · rw [hitems, stimuli_concat, hmem, List.length_map, ← hx, ← h.mem]

theorem run_recorded (env : Env) (k : Nat) : (run env k).Recorded env.draw := by
  refine Clocked.run_invariant (P := Recorded env.draw) ⟨rfl, rfl⟩ ?_ k
  intro k tl h
  have hadv := h.advance
  exact ⟨by simpa [step] using hadv.opened, by simpa [step] using hadv.mem⟩

end Timeline

end UbusVip
