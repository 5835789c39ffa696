import UbusVip.History
import UbusVip.Refinement.Run

namespace UbusVip

open FilledMemory (replay writes)

def Serves (env : Env) (k : Nat) (tr : Item) : Prop :=
  let n := (Testbench.run env k).slave.responses.length
  (Testbench.run env (k + 1)).slave.responses.length = n + 1 ∧
    (Testbench.run env (k + 1)).driven[n]? = some tr

def Stored (env : Env) (k : Nat) (tr : Item) : Prop :=
  (∀ i < tr.val.size, (Testbench.run env (k + 1)).slave.mem (tr.val.addr.toNat + i) =
      some ((tr.val.byte i).setWidth 32)) ∧
    ∀ a, ¬Covers tr a → (Testbench.run env (k + 1)).slave.mem a = (Testbench.run env k).slave.mem a

theorem Serves.shown {env : Env} {k : Nat} {tr : Item} (h : Serves env k tr) :
    (Timeline.run env k).shown = [tr] := by
  obtain ⟨hlen, hdriven⟩ := h
  have hk := run_follows env k
  have hk' := run_follows env (k + 1)
  have hstep := Timeline.opened_step env k
  have hitems : (Testbench.run env (k + 1)).driven =
      (Timeline.run env k).opened.map (·.item) ++ (Timeline.run env k).shown ++
        (Timeline.run env (k + 1)).pending := by
    rw [hk'.driven, ← hstep]; rfl
  rw [hk.served.responses, hk'.served.responses] at hlen
  rw [hk.served.responses, hitems] at hdriven
  have hcount := congrArg List.length hstep
  simp only [Timeline.view, List.length_map, List.length_append] at hlen hcount hdriven
  have hone : (Timeline.run env k).shown.length = 1 := by omega
  obtain ⟨tr', hshown⟩ := List.length_eq_one_iff.mp hone
  rw [hshown, List.append_assoc, List.getElem?_append_right (by simp)] at hdriven
  simp at hdriven
  rw [hshown, hdriven]

theorem serves_mem {env : Env} {k : Nat} {tr : Item} (h : Serves env k tr) :
    (Testbench.run env (k + 1)).slave.mem =
      replay (Testbench.run env k).slave.mem
        (Stimulus.accesses (tr, env.draw (Testbench.run env k).slave.responses.length)) := by
  have hk := run_follows env k
  have hmem := Timeline.mem_advance env.draw (Timeline.run env k)
  rw [h.shown, List.foldl_cons, List.foldl_nil, SlaveSequence.respond_mem (request_dir tr)] at hmem
  have hlen : (Testbench.run env k).slave.responses.length =
      (Timeline.run env k).opened.length := by
    rw [hk.served.responses]; exact List.length_map _
  rw [(run_follows env (k + 1)).mem, hk.mem, hlen, ← Stimulus.accesses_eq]
  exact (Timeline.mem_accept _).trans hmem

theorem serves_write_mem {env : Env} {k : Nat} {tr : Item} (h : Serves env k tr)
    (hw : tr.val.write = true) (a : Nat) :
    (Testbench.run env (k + 1)).slave.mem a =
      if Covers tr a then some 0 else (Testbench.run env k).slave.mem a := by
  have hr := tr.read_of_write hw
  rw [serves_mem h, Stimulus.accesses, if_neg (by simp [hr]), FilledMemory.replay_writes]
  rfl

theorem write_stored_iff {env : Env} {k : Nat} {tr : Item} (h : Serves env k tr)
    (hw : tr.val.write = true) :
    Stored env k tr ↔ ∀ i < tr.val.size, tr.val.byte i = 0 := by
  have hmem := serves_write_mem h hw
  have hcov {i : Nat} (hi : i < tr.val.size) : Covers tr (tr.val.addr.toNat + i) :=
    (tr.val.mem_span _).mpr (by omega)
  constructor
  · intro hs i hi
    have hi' := hs.1 i hi
    rw [hmem, if_pos (hcov hi), Option.some_inj] at hi'
    exact (setWidth_eq_zero _).mp hi'.symm
  · intro hz
    constructor
    · intro i hi
      rw [hmem, if_pos (hcov hi), hz i hi]; rfl
    · intro a ha
      rw [hmem, if_neg ha]

theorem write_stored_iff_wordWrite :
    Stored .writeThenRead 2 wordWrite ↔ ∀ i < 2, wordWrite.val.byte i = 0 :=
  write_stored_iff ⟨by decide, by decide⟩ (by decide)

theorem wordWrite_lost :
    Serves .writeThenRead 2 wordWrite ∧ wordWrite.val.write = true ∧
      ¬Stored .writeThenRead 2 wordWrite := by
  refine ⟨⟨by decide, by decide⟩, by decide, ?_⟩
  intro hs
  have hfirst := hs.1 0 (by decide)
  have hzero : (Testbench.run .writeThenRead 3).slave.mem 0x10 = some 0 := by decide
  exact absurd (hzero.symm.trans hfirst) (by decide)

end UbusVip
