import UbusVip.Guarantees.ClosureEnds
import UbusVip.Guarantees.FinalReport
import UbusVip.Guarantees.RegionCounts
import UbusVip.Guarantees.ResponseOrder

namespace UbusVip

open Interaction (Prog)
open SlaveSequence (Draw)

structure Accounted (items : List Item) (s : Testbench) : Prop where
  masterCollected : headers s.masterCollected = itemHeaders items
  slaveCollected : headers s.slaveCollected = itemHeaders items
  finalReport : s.scoreboard.finalReport = tally items

theorem Follows.accounted {tl : Timeline} {s : Testbench} (h : Follows UbusCoverage.init tl s)
    {items : List Item} (hitems : tl.reported.map (·.item) = items) : Accounted items s := by
  have hreports : headers (reports tl.reported) = itemHeaders items := by
    rw [← hitems]
    exact reportsFrom_headers true _
  obtain ⟨hwrites, hreads⟩ := score_counts tl.reported
  rw [hitems] at hwrites hreads
  refine ⟨?_, ?_, ?_⟩
  · rw [h.published.masterCollected]
    exact hreports
  · rw [h.published.slaveCollected]
    exact hreports
  · rw [UbusScoreboard.finalReport, h.published.scoreboard, tally]
    exact congrArg₂ Prod.mk (congrArg BitVec.toInt hwrites) (congrArg BitVec.toInt hreads)

theorem closureRun_resting (solver : UbusTargetAddrDirSeqf.Solver) (e : Platform) (tl : Timeline)
    (nRepeat n : Nat)
    (h : ¬0 < tl.busy e.draw ∨ (closureRun solver e tl nRepeat).2.account.items ≠ []) :
    ∃ rest : Timeline, ¬0 < rest.busy e.draw ∧
      ((closureRun solver e tl nRepeat).2.tl.advance e.draw).after e.draw n =
        rest.advance e.draw := by
  obtain ⟨d, _, m, hsync, hrun, -⟩ := closureRun_snd solver e tl nRepeat
  rw [hrun] at h
  have hfree : ¬0 < (d.tl.advance e.draw).busy e.draw := hsync.billed.free_of h
  refine ⟨(d.tl.advance e.draw).after e.draw (n + 2), ?_, ?_⟩
  · rw [Timeline.busy_after]
    omega
  · rw [hrun]
    change ((d.tl.after e.draw 3).advance e.draw).after e.draw n = _
    rw [Timeline.advance_after, Timeline.after_after, ← Timeline.after_succ]

theorem closure_test_reports (solver : UbusTargetAddrDirSeqf.Solver) (e : Platform) (env : Env)
    (k₀ nRepeat : Nat) :
    let s := Testbench.run env k₀
    let c := SequenceRun.run (UbusVirtualSequence.client solver) e s (UbusVirtualSequence.body nRepeat)
    ∃ K, (∀ k < K, (c k).Pending) ∧
      ∀ k, K ≤ k → (c k).blocked = .ended ∧
        (SequenceRun.HasDriver s (c k).account → Accounted (c k).tb.driven (c k).tb) := by
  intro s c
  obtain ⟨K, -, hpending, hrests⟩ := closureTest_rests solver e env k₀ nRepeat
  refine ⟨K, hpending, ?_⟩
  intro k hk
  obtain ⟨n, h⟩ := hrests k hk
  refine ⟨h.ended, fun hd => ?_⟩
  have hacc : (c k).account = (closureRun solver e (Timeline.run env k₀) nRepeat).2.account := h.account
  rw [hacc] at hd
  have hstart := hd.imp_left ((run_follows env k₀).getNextItem_iff e.draw).mp
  obtain ⟨rest, hbusy, htl⟩ := closureRun_resting solver e (Timeline.run env k₀) nRepeat n hstart
  refine h.follows.accounted ?_
  rw [htl, Timeline.reported_of_resting hbusy, ← htl]
  exact h.follows.driven.symm

theorem closure_test_reports_halfWords :
    let c := SequenceRun.run (UbusVirtualSequence.client UbusTargetAddrDirSeqf.halfWords) .eager
      (.init UbusCoverage.init) (UbusVirtualSequence.body 4)
    ∃ K, (c K).blocked = .ended ∧ Accounted (c K).tb.driven (c K).tb := by
  intro c
  obtain ⟨K, -, hended⟩ :=
    closure_test_reports UbusTargetAddrDirSeqf.halfWords .eager .writeThenRead 0 4
  obtain ⟨hblocked, haccounted⟩ := hended K le_rfl
  exact ⟨K, hblocked, haccounted (.inl rfl)⟩

namespace Timeline

variable {draw : Nat → Draw} {tl : Timeline}

def underway (tl : Timeline) : Option Bool :=
  match tl.phase with
  | .idle _ => none
  | .command _ tr => some tr.val.read
  | .address tr => some tr.val.read
  | .wait t _ => some t.read
  | .beat t _ => some t.read
  | .tail _ _ => some false

theorem underway_advance (hb : 1 < tl.busy draw) : (tl.advance draw).underway = tl.underway := by
  obtain ⟨past, phase, mem⟩ := tl
  cases phase with
  | idle late | tail t hr => simp [busy] at hb
  | command late tr => rfl
  | address tr => simp only [advance]; split <;> rfl
  | wait t i => simp only [advance]; split <;> rfl
  | beat t i =>
    simp only [advance]
    split
    · rfl
    · split
      · simp only [busy, show t.read = true by assumption, Transfer.tailSpan, if_true] at hb
        omega
      · rename_i hr
        have hwrite : t.read = false := by simpa using hr
        simp only [underway, hwrite]

-- a read is left for the slave to close, a write is closed when drive_transfer returns
theorem phase_of_underway {read : Bool} (h : tl.underway = some read) (hb : tl.busy draw = 1) :
    ∃ late, (tl.advance draw).phase = .idle late ∧ late.isSome = read := by
  obtain ⟨past, phase, mem⟩ := tl
  cases phase with
  | idle late => cases h
  | command late tr => simp only [busy] at hb; omega
  | address tr => have := tr.size_pos; simp only [busy] at hb; omega
  | wait t i => have := i.isLt; have := t.size_pos; simp only [busy] at hb; omega
  | beat t i =>
    obtain rfl : t.read = read := Option.some_inj.mp h
    have hi := i.isLt
    cases hr : t.read with
    | true =>
      have hlast : ¬i + 1 < t.size := by
        simp only [busy, hr, Transfer.tailSpan, if_true] at hb
        omega
      exact ⟨some t, by simp [advance, hlast, hr], rfl⟩
    | false =>
      simp [busy, hr, Transfer.tailSpan] at hb
      omega
  | tail t hr =>
    obtain rfl : false = read := Option.some_inj.mp h
    exact ⟨none, rfl, rfl⟩

theorem phase_after {read : Bool} (h : tl.underway = some read) (n : Nat)
    (hb : tl.busy draw = n + 1) :
    ∃ late, (tl.after draw (n + 1)).phase = .idle late ∧ late.isSome = read := by
  induction n generalizing tl with
  | zero => exact phase_of_underway h hb
  | succ n ih =>
    have hadv := busy_advance (show 0 < tl.busy draw by omega)
    exact ih ((underway_advance (by omega)).trans h) (by omega)

theorem reported_of_idle {late : Option Transfer} (h : tl.phase = .idle late) :
    tl.reported.map (·.item) =
      if late.isSome = true ∧ 2 ≤ tl.items.length then tl.items.dropLast else tl.items := by
  have hitems : tl.items = tl.past.map (·.item) ++ late.toList.map (·.item) := by
    simp [items, opened, pending, h]
  rw [hitems]
  simp only [reported, h]
  cases late with
  | none => cases tl.past <;> simp
  | some t =>
    cases hpast : tl.past with
    | nil => rfl
    | cons u past =>
      have htwo : 2 ≤ ((u :: past).map (·.item) ++ [t.item]).length := by simp
      exact (List.dropLast_concat.symm).trans (if_pos ⟨rfl, htwo⟩).symm

end Timeline

def publishedAtEnd (items : List Item) : List Item :=
  if items.getLast?.map (·.val.read) = some true ∧ 2 ≤ items.length then items.dropLast else items

section LastOperation

variable {Op : Type} {Res : Op → Type} {α β γ : Type} {client : Client Op Res} {e : Platform}

namespace Moment

variable {m : Moment Op Res}

theorem Free.handle (h : m.Free e) (op : Op) : (handle e client op m).2.Free e := by
  rw [Moment.handle]
  split
  · exact h
  · exact free_send e _ _
  · exact h
  · exact Free.pause h _

def AfterItem (e : Platform) (m : Moment Op Res) : Prop :=
  ∃ m' : Moment Op Res, m'.Free e ∧ ∃ tr, m.tl = (m'.transfer e tr).tl

theorem AfterItem.reported (h : m.AfterItem e) :
    (m.tl.advance e.draw).reported.map (·.item) = publishedAtEnd (m.tl.advance e.draw).items := by
  obtain ⟨m', hfree, tr, htl⟩ := h
  let tl := (m'.tl.advance e.draw).accept (some tr)
  have hbusy : 0 < tl.busy e.draw := hfree.busy_send tr
  obtain ⟨late, hidle⟩ := Timeline.idle_of_not_busy hfree
  have hunder : tl.underway = some tr.val.read := by
    simp only [tl, Timeline.accept, hidle, Timeline.underway]
  have hend : m.tl.advance e.draw = tl.after e.draw (tl.busy e.draw - 1 + 1) := by
    rw [htl, Timeline.after_succ]
    rfl
  have hsplit : tl.busy e.draw = tl.busy e.draw - 1 + 1 := by omega
  obtain ⟨late', hphase, hsome⟩ := Timeline.phase_after hunder (tl.busy e.draw - 1) hsplit
  have hlast : (m.tl.advance e.draw).items.getLast? = some tr := by
    rw [hend, Timeline.items_after, Timeline.items_accept tr hfree, List.getLast?_concat]
  rw [← hend] at hphase
  rw [Timeline.reported_of_idle hphase, publishedAtEnd, hlast, hsome]
  simp only [Option.map_some, Option.some_inj]

end Moment

variable (client e) in
def EndsWithItem (p : Prog Op Res α) : Prop :=
  ∀ m, m.Free e → (p.run (Moment.handle e client) m).2.AfterItem e

theorem EndsWithItem.bind {f : α → Prog Op Res β} (hf : ∀ a, EndsWithItem client e (f a))
    (p : Prog Op Res α) : EndsWithItem client e (p >>= f) := by
  intro m hm
  rw [Prog.run_bind]
  exact hf _ _ (Prog.run_invariant (P := Moment.Free e) _ (fun op _ h => h.handle op) p hm)

theorem EndsWithItem.forM {f : γ → Prog Op Res PUnit} {l : List γ} (hl : l ≠ [])
    (hf : ∀ x ∈ l, EndsWithItem client e (f x)) : EndsWithItem client e (l.forM f) := by
  induction l with
  | nil => exact absurd rfl hl
  | cons x l ih =>
    rcases eq_or_ne l [] with rfl | hne
    · intro m hm
      rw [Prog.run_forM_cons]
      exact hf x List.mem_cons_self m hm
    · exact bind (fun _ => ih hne fun y hy => hf y (List.mem_cons_of_mem x hy)) (f x)

theorem EndsWithItem.ends {p : Prog Op Res α} (h : EndsWithItem client e p) (hp : Fed client p) :
    let c := SequenceRun.run client e (.init UbusCoverage.init) p
    ∃ K, (∀ k < K, (c k).Pending) ∧ (c K).blocked = .ended ∧
      Accounted (publishedAtEnd (c K).tb.driven) (c K).tb ∧
      ∀ k, K < k → Accounted (c k).tb.driven (c k).tb := by
  intro c
  have hafter := h (.start .init) (Nat.lt_irrefl 0)
  obtain ⟨K, -, -, hpending, hrests⟩ :=
    SequenceRun.exists_rests (follows_init UbusCoverage.init) e hp
  refine ⟨K, hpending, (hrests 0).ended, ?_, ?_⟩
  · have hdriven : (c K).tb.driven = _ := (hrests 0).follows.driven
    rw [hdriven]
    exact (hrests 0).follows.accounted hafter.reported
  · intro k hk
    obtain ⟨n, rfl⟩ := Nat.exists_eq_add_of_lt hk
    have hrest := hrests (n + 1)
    refine hrest.follows.accounted ?_
    rw [Timeline.after_succ, Timeline.reported_of_resting ((hrests n).idle (.inl rfl)), ← Timeline.after_succ]
    exact hrest.follows.driven.symm

end LastOperation

namespace MasterSeq

variable {r : Randomizer} {e : Platform} {c : Packet → Prop}

theorem endsWithItem_doWith (hc : Satisfiable c) : EndsWithItem (client r) e (doWith c) := by
  intro m hm
  obtain ⟨tr, u, hsend⟩ := (sends_doWith (r := r) hc (m.desk e)).eq_send
  have hfree : (m.note (.doWith c) u).Free e := hm
  refine ⟨m.note (.doWith c) u, hfree, tr, ?_⟩
  change (Moment.handle e (client r) (.doWith c) m).2.tl = _
  rw [Moment.handle_of_send hsend, hfree.send_eq]

theorem endsWithItem_exchange (hc : Satisfiable c) :
    EndsWithItem (client r) e (do doWith c; let _ ← getResponse : Seq Unit) := by
  intro m hm
  obtain ⟨m', hfree, tr, htl⟩ := endsWithItem_doWith hc m hm
  exact ⟨m', hfree, tr, htl⟩

theorem range_ne_nil (n : Nat) : List.range (n + 1) ≠ [] := by simp

theorem endsWithItem_repeat {p : Seq Unit} (hp : EndsWithItem (client r) e p) (n : Nat) :
    EndsWithItem (client r) e ((List.range (n + 1)).forM fun _ => p) :=
  .forM (range_ne_nil n) fun _ _ => hp

def unpaused (n : Nat) : List (Seq Unit) :=
  ubusMasterWriteRandomSizeSeq n :: ubusTargetAddrDirSeq n :: targetSeqs n ::
    ubusMasterReadLowSeq n :: ubusMasterReadMidSeq n :: ubusMasterReadHighSeq n :: leaving n

theorem endsWithItem_transact {i : Nat} (hi : i < 6) (read : Bool) :
    EndsWithItem (client r) e (transact i read) :=
  endsWithItem_exchange (satisfiable_inRegion hi read)

theorem endsWithItem_targetAddrDir (n : Nat) :
    EndsWithItem (client r) e (ubusTargetAddrDirSeq (n + 1)) :=
  .bind (fun _ => .bind (fun _ => .bind (fun _ =>
    endsWithItem_repeat (endsWithItem_transact (by decide) true) n) _) _) _

theorem endsWithItem_targetSeqs (n : Nat) : EndsWithItem (client r) e (targetSeqs (n + 1)) := by
  have hregion {i : Nat} (hi : i < 6) : EndsWithItem (client r) e (targetRegion i (n + 1)) :=
    .bind (fun _ => endsWithItem_repeat (endsWithItem_transact hi true) n) _
  exact EndsWithItem.forM (f := fun i => targetRegion i (n + 1)) (range_ne_nil 5)
    fun i hi => hregion (List.mem_range.mp hi)

theorem endsWithItem_readRange (hc : Satisfiable c) (n : Nat) :
    EndsWithItem (client r) e (readRange c (n + 1)) :=
  endsWithItem_repeat (endsWithItem_exchange hc) n

theorem endsWithItem_unpaused (n : Nat) :
    ∀ p ∈ unpaused (n + 1), EndsWithItem (client r) e p := by
  simp only [unpaused, List.forall_mem_cons]
  refine ⟨?_, endsWithItem_targetAddrDir n, endsWithItem_targetSeqs n, ?_, ?_, ?_, ?_⟩
  · exact endsWithItem_repeat (endsWithItem_exchange (satisfiable_writeByte (a := 0) (by decide))) n
  · exact endsWithItem_readRange (satisfiable_readByte (a := 0x0000) (by decide)) n
  · exact endsWithItem_readRange (satisfiable_readByte (a := 0x4000) (by decide)) n
  · exact endsWithItem_readRange (satisfiable_readByte (a := 40960) (by decide)) n
  · intro p hp
    obtain ⟨c, hc, rfl⟩ := leaving_spec (n + 1) p hp
    exact endsWithItem_repeat (endsWithItem_doWith hc) n

theorem fed_unpaused (n : Nat) : ∀ p ∈ unpaused n, Fed (client r) p := by
  have hpaired : ∀ p ∈ collecting n, Fed (client r) p := fun p hp => (paired_collecting n p hp).fed
  have hleaving : ∀ p ∈ leaving n, Fed (client r) p := by
    intro p hp
    obtain ⟨c, hc, rfl⟩ := leaving_spec n p hp
    exact .forM fun _ _ => fed_doWith hc
  simp only [unpaused, List.forall_mem_cons]
  refine ⟨hpaired _ ?_, hpaired _ ?_, hpaired _ ?_, hpaired _ ?_, hpaired _ ?_, hpaired _ ?_, hleaving⟩
  all_goals simp [collecting]

end MasterSeq

theorem unpaused_sequence_ends (r : Randomizer) (e : Platform) (n : Nat) :
    ∀ p ∈ MasterSeq.unpaused (n + 1),
      let c := SequenceRun.run (MasterSeq.client r) e (.init UbusCoverage.init) p
      ∃ K, (∀ k < K, (c k).Pending) ∧ (c K).blocked = .ended ∧
        Accounted (publishedAtEnd (c K).tb.driven) (c K).tb ∧
        ∀ k, K < k → Accounted (c k).tb.driven (c k).tb :=
  fun p hp => (MasterSeq.endsWithItem_unpaused n p hp).ends (MasterSeq.fed_unpaused (n + 1) p hp)

theorem unpaused_sequence_ends_readLow :
    let e : Platform := ⟨fun _ => .fixed 0, fun _ => false, fun _ => false⟩
    let c := SequenceRun.run (MasterSeq.client .any) e (.init UbusCoverage.init)
      (MasterSeq.ubusMasterReadLowSeq 2)
    ∃ K, (c K).blocked = .ended ∧ Accounted (publishedAtEnd (c K).tb.driven) (c K).tb := by
  intro e c
  have hmem : MasterSeq.ubusMasterReadLowSeq 2 ∈ MasterSeq.unpaused 2 := by simp [MasterSeq.unpaused]
  obtain ⟨K, -, hended, haccounted, -⟩ := unpaused_sequence_ends .any e 1 _ hmem
  exact ⟨K, hended, haccounted⟩

end UbusVip
