import Mathlib.Data.Fintype.Prod
import UbusVip.Guarantees.ClosureRun

namespace UbusVip

open Interaction (Prog)
open UbusTargetAddrDirSeqf
open UbusCoverage (binOf)
open SlaveSequence (Draw)

theorem mem_dropLast_mono {α : Type} {l r : List α} (h : l <+: r) {a : α}
    (ha : a ∈ l.dropLast) : a ∈ r.dropLast := by
  obtain ⟨s, rfl⟩ := h
  rcases List.eq_nil_or_concat s with rfl | ⟨s, x, rfl⟩
  · rwa [List.append_nil]
  · rw [List.concat_eq_append, ← List.append_assoc, List.dropLast_concat]
    exact List.mem_append_left s (List.mem_of_mem_dropLast ha)

def Pass.sent (pass : Pass) : List Packet := pass.filterMap Visit.sent

theorem Visit.packets_events (v : Visit) : packets v.events = v.sent.toList := by
  obtain ⟨t, sent⟩ := v
  cases sent <;> rfl

theorem Pass.packets_events (pass : Pass) : packets pass.events = pass.sent := by
  induction pass with
  | nil => rfl
  | cons v pass ih =>
    change packets (v.events ++ Pass.events pass) = _
    rw [packets_append, v.packets_events, ih, sent, sent, List.filterMap_cons]
    cases v.sent <;> rfl

theorem packets_passes (passes : List Pass) :
    packets (passes.flatMap Pass.events) = passes.flatMap Pass.sent := by
  induction passes with
  | nil => rfl
  | cons pass passes ih =>
    rw [List.flatMap_cons, packets_append, pass.packets_events, ih, List.flatMap_cons]

theorem addr_of_index_three {addr : Nat} (h : UbusCoverage.addrToIndex addr = 3) :
    16384 ≤ addr ∧ addr ≤ 20479 := by
  rw [UbusCoverage.addrToIndex] at h
  split_ifs at h <;> omega

theorem sizeIndex_lt {p : Packet} (hl : p.Legal) (hg : p.globalLegality) {i : Fin 6}
    (hi : UbusCoverage.addrToIndex p.addr.toNat = i) :
    UbusCoverage.sizeToIndex p.size < (sizeArray i).length := by
  have hsize := hl.cSize
  simp only [List.mem_cons, List.not_mem_nil, or_false] at hsize
  rw [sizeArray]
  split
  · rename_i h3
    subst h3
    have haddr := addr_of_index_three hi
    rcases hsize with h | h | h | h
    · rw [h]; decide
    · rw [h]; decide
    · rw [h]; decide
    · exact absurd ⟨haddr, h⟩ hg
  · rcases hsize with h | h | h | h <;> rw [h] <;> decide

theorem Visit.Aimed.target {v : Visit} (h : v.Aimed) {p : Packet} (hp : v.sent = some p)
    (hl : p.Legal) (hg : p.globalLegality) :
    ∃ t : Target, t.Legal ∧ t.i = v.target.i ∧ t.dir = v.target.dir ∧ t.bin = binOf p := by
  obtain ⟨haddr, hdir⟩ := h p hp
  refine ⟨⟨v.target.i, v.target.dir, (binOf p).size⟩, sizeIndex_lt hl hg haddr, rfl, rfl, ?_⟩
  rw [Target.bin, ← haddr, ← hdir]

theorem Informed.visit {pre post : List Event} {pass : Pass}
    (h : Informed (pre ++ pass.events ++ post)) {v : Visit} (hv : v ∈ pass) (hs : v.sent ≠ none) :
    .check v.target.bin true ∉ pre ∧ ∀ p ∈ (packets pre).dropLast, binOf p ≠ v.target.bin := by
  obtain ⟨before, after, rfl⟩ := List.append_of_mem hv
  have hevents : pre ++ Pass.events (before ++ v :: after) ++ post =
      (pre ++ Pass.events before) ++ .check v.target.bin false ::
        (v.sent.toList.map .send ++ Pass.events after ++ post) := by
    have hmiss : v.sent.isNone = false :=
      Option.isNone_eq_false_iff.mpr (Option.isSome_iff_ne_none.mpr hs)
    simp [Pass.events, Visit.events, hmiss]
  obtain ⟨hcheck, hmissed⟩ := h _ _ _ hevents
  refine ⟨fun hmem => hcheck (List.mem_append_left _ hmem), ?_⟩
  intro p hp
  refine hmissed p (mem_dropLast_mono ?_ hp)
  rw [packets_append]
  exact List.prefix_append _ _

theorem row_opens (i : Fin 6) (dir : Fin 2) :
    [(⟨i, dir, 0⟩ : Target), ⟨i, dir, 1⟩] <:+: Target.all := by
  revert i dir
  decide

theorem row_covered {first : Pass} (hfull : first.map Visit.target = Target.all)
    (haimed : ∀ v ∈ first, v.Aimed) (hlegal : ∀ p ∈ first.sent, p.Legal ∧ p.globalLegality)
    {i : Fin 6} {dir : Fin 2}
    (hsent : ∀ v ∈ first, v.target.i = i → v.target.dir = dir → v.sent ≠ none) :
    ∃ p ∈ first.sent.dropLast, ∃ t : Target, t.Legal ∧ t.i = i ∧ t.dir = dir ∧ t.bin = binOf p := by
  obtain ⟨A, B, hsplit⟩ := row_opens i dir
  rw [← hfull, List.append_assoc] at hsplit
  obtain ⟨before, rest, rfl, -, hrest⟩ := List.map_eq_append_iff.mp hsplit.symm
  obtain ⟨v, rest, rfl, hv, hrest⟩ := List.map_eq_cons_iff.mp hrest
  obtain ⟨u, after, rfl, hu, -⟩ := List.map_eq_cons_iff.mp hrest
  have hvsent := hsent v (by simp) (by rw [hv]) (by rw [hv])
  have husent := hsent u (by simp) (by rw [hu]) (by rw [hu])
  obtain ⟨p, hp⟩ := Option.ne_none_iff_exists'.mp hvsent
  obtain ⟨q, hq⟩ := Option.ne_none_iff_exists'.mp husent
  have hlist : Pass.sent (before ++ v :: u :: after) =
      Pass.sent before ++ p :: q :: Pass.sent after := by
    simp [Pass.sent, hp, hq]
  have hmem : p ∈ (Pass.sent (before ++ v :: u :: after)).dropLast := by
    rw [hlist, List.dropLast_append_of_ne_nil (by simp)]
    simp
  obtain ⟨hl, hg⟩ := hlegal p (List.mem_of_mem_dropLast hmem)
  obtain ⟨t, ht, hi, hdir, hbin⟩ := (haimed v (by simp)).target hp hl hg
  exact ⟨p, hmem, t, ht, by rw [hi, hv], by rw [hdir, hv], hbin⟩

theorem row_quiet {first later : Pass} (mid post : List Event)
    (h : Informed (first.events ++ mid ++ later.events ++ post))
    (hfirst : first.map Visit.target = Target.all) (hlater : later.map Visit.target = Target.all)
    (haimed : ∀ v ∈ first, v.Aimed) (hlegal : ∀ p ∈ first.sent, p.Legal ∧ p.globalLegality)
    (i : Fin 6) (dir : Fin 2) :
    ∃ v ∈ later, v.target.i = i ∧ v.target.dir = dir ∧ v.sent = none := by
  by_contra! hno
  have hmissed (t : Target) (ht : t.Legal) (hi : t.i = i) (hdir : t.dir = dir) :
      .check t.bin true ∉ first.events ++ mid ∧
        ∀ p ∈ (packets (first.events ++ mid)).dropLast, binOf p ≠ t.bin := by
    obtain ⟨v, hv, rfl⟩ := List.mem_map.mp (hlater ▸ (Target.mem_all t).mpr ht)
    exact h.visit hv (hno v hv hi hdir)
  have hsent : ∀ v ∈ first, v.target.i = i → v.target.dir = dir → v.sent ≠ none := by
    intro v hv hi hdir hnone
    have hlegalT : v.target.Legal :=
      (Target.mem_all _).mp (hfirst ▸ List.mem_map_of_mem hv)
    refine (hmissed v.target hlegalT hi hdir).1 (List.mem_append_left _ ?_)
    refine List.mem_flatMap.mpr ⟨v, hv, ?_⟩
    simp [Visit.events, hnone]
  obtain ⟨p, hp, t, ht, hi, hdir, hbin⟩ := row_covered hfirst haimed hlegal hsent
  refine (hmissed t ht hi hdir).2 p (mem_dropLast_mono ?_ hp) hbin.symm
  rw [packets_append, Pass.packets_events]
  exact List.prefix_append _ _

theorem sent_le_of_rows {pass : Pass} (hfull : pass.map Visit.target = Target.all)
    (hrows : ∀ (i : Fin 6) (dir : Fin 2),
      ∃ v ∈ pass, v.target.i = i ∧ v.target.dir = dir ∧ v.sent = none) :
    pass.sent.length ≤ 34 := by
  let quiet := pass.filter fun v => v.sent.isNone
  have hlen : pass.length = 46 := by
    rw [← List.length_map (f := Visit.target), hfull]
    decide
  have hsplit : pass.sent.length + quiet.length = pass.length := by
    simp only [Pass.sent, quiet]
    clear hfull hrows hlen quiet
    induction pass with
    | nil => rfl
    | cons v pass ih => cases hv : v.sent <;> simp [hv] <;> omega
  have hcover : (Finset.univ : Finset (Fin 6 × Fin 2)) ⊆
      (quiet.map fun v => (v.target.i, v.target.dir)).toFinset := by
    rintro ⟨i, dir⟩ -
    obtain ⟨v, hv, hi, hdir, hnone⟩ := hrows i dir
    rw [List.mem_toFinset, List.mem_map]
    exact ⟨v, List.mem_filter.mpr ⟨hv, by simp [hnone]⟩, by rw [hi, hdir]⟩
  have hcard : 12 ≤ quiet.length := by
    have hle := (Finset.card_le_card hcover).trans (List.toFinset_card_le _)
    rwa [List.length_map] at hle
  omega

theorem length_flatMap_le {α β : Type} {l : List α} {f : α → List β} {n : Nat}
    (h : ∀ a ∈ l, (f a).length ≤ n) : (l.flatMap f).length ≤ l.length * n := by
  induction l with
  | nil => simp
  | cons a l ih =>
    have ha := h a (List.mem_cons_self ..)
    have hl := ih fun b hb => h b (List.mem_cons_of_mem a hb)
    rw [List.flatMap_cons, List.length_append, List.length_cons, Nat.succ_mul]
    omega

theorem sent_le (pass : Pass) (hfull : pass.map Visit.target = Target.all) :
    pass.sent.length ≤ 46 := by
  have hlen : pass.length = 46 := by
    rw [← List.length_map (f := Visit.target), hfull]
    decide
  exact hlen ▸ List.length_filterMap_le ..

theorem passes_le {passes : List Pass} {post : List Event} (hbound : passes.length ≤ 100)
    (hfull : ∀ pass ∈ passes, pass.map Visit.target = Target.all)
    (haimed : ∀ pass ∈ passes, ∀ v ∈ pass, v.Aimed)
    (hlegal : ∀ p ∈ passes.flatMap Pass.sent, p.Legal ∧ p.globalLegality)
    (h : Informed (passes.flatMap Pass.events ++ post)) :
    (passes.flatMap Pass.sent).length ≤ 3412 := by
  cases passes with
  | nil => exact Nat.zero_le _
  | cons first rest =>
    have hfirst := hfull first (List.mem_cons_self ..)
    have hlater : ∀ pass ∈ rest, pass.sent.length ≤ 34 := by
      intro pass hpass
      have hall := hfull pass (List.mem_cons_of_mem _ hpass)
      refine sent_le_of_rows hall fun i dir => ?_
      obtain ⟨mid, tail, rfl⟩ := List.append_of_mem hpass
      refine row_quiet (mid.flatMap Pass.events) (tail.flatMap Pass.events ++ post) ?_ hfirst hall
        (haimed first (List.mem_cons_self ..)) ?_ i dir
      · simpa using h
      · exact fun p hp => hlegal p (List.mem_flatMap.mpr ⟨first, List.mem_cons_self .., hp⟩)
    have hrest := length_flatMap_le hlater
    have hle := sent_le first hfirst
    rw [List.length_cons] at hbound
    rw [List.flatMap_cons, List.length_append]
    omega

theorem run_observed (s : Surroundings) (nRepeat : Nat) :
    let fin := (body nRepeat true).run (Observed.answer s) (.start UbusCoverage.init)
    Informed fin.2.trace → (∀ p ∈ packets fin.2.trace, p.Legal ∧ p.globalLegality) →
      (packets fin.2.trace).length ≤ 3412 ∧
        (.warn .maxAttempts ∉ fin.2.trace → ∀ t : Target, t.Legal → fin.2.covers t.bin = true) := by
  intro fin hinf hlegal
  obtain ⟨passes, hex⟩ := run_attempts s 100 0 (.start UbusCoverage.init)
  have hbody : body nRepeat true = attempts 100 0 false >>= Master.finish := rfl
  have hfin : fin = (body nRepeat true).run (Observed.answer s) (.start UbusCoverage.init) := rfl
  have htrace := run_finish s _ fun h => (hex.gaveUp h).1
  rw [hbody, Prog.run_bind] at hfin
  generalize (attempts 100 0 false).run (Observed.answer s) (.start UbusCoverage.init) = out
    at hex hfin htrace
  rw [← hfin, hex.trace] at htrace
  have htrace' : fin.2.trace = passes.flatMap Pass.events ++
      (if out.1.2 then [] else [.warn .maxAttempts]) := htrace
  have hpackets : packets fin.2.trace = passes.flatMap Pass.sent := by
    rw [htrace', packets_append, packets_passes]
    cases out.1.2 <;> exact List.append_nil _
  refine ⟨?_, ?_⟩
  · rw [hpackets] at hlegal ⊢
    exact passes_le hex.bound hex.full hex.aimed hlegal (htrace' ▸ hinf)
  · intro hwarn t ht
    cases hall : out.1.2 with
    | false => exact absurd (by rw [htrace', hall]; simp) hwarn
    | true =>
      rw [hfin]
      exact Observed.grows_run _ _ ((hex.closed hall).1 t ((Target.mem_all t).mpr ht))

section VirtualSequence

variable (solver : Solver) (e : Platform) (tl : Timeline) (nRepeat : Nat)

def closureRun : Unit × ClosureMoment :=
  (UbusVirtualSequence.body nRepeat).run (Moment.handle e (UbusVirtualSequence.client solver))
    (.start tl)

theorem closureRun_snd :
    ∃ d n m, Sync e tl n d m ∧
      (closureRun solver e tl nRepeat).2 = (d.note (.inr (.posedges 3)) ()).pause e 3 ∧
        (packets m.trace).length ≤ 3412 ∧
        (.warn .maxAttempts ∉ m.trace → ∀ t : Target, t.Legal → m.covers t.bin = true) := by
  let client := UbusVirtualSequence.client solver
  obtain ⟨rec, hrec⟩ := run_sync e tl solver (body nRepeat true) 0 (.start tl)
  let s : Surroundings :=
    ⟨solver, fun i => (rec.getD i ([], .create)).1, fun i => (rec.getD i ([], .create)).2⟩
  have hplays : s.Plays 0 rec := by
    intro i x hi
    simp [s, hi]
  obtain ⟨-, n, hsync⟩ := hrec s (.start UbusCoverage.init) rfl hplays (.start e tl)
  have hlegal : ∀ p ∈ packets ((body nRepeat true).run (Observed.answer s)
      (.start UbusCoverage.init)).2.trace, p.Legal ∧ p.globalLegality := by
    rw [hsync.packets]
    intro p hp
    obtain ⟨tr, htr, rfl⟩ := List.mem_map.mp hp
    exact ⟨tr.property, hsync.legality tr htr⟩
  obtain ⟨hlen, hcov⟩ := run_observed s nRepeat hsync.informed hlegal
  refine ⟨_, n, _, hsync, ?_, hlen, hcov⟩
  rw [closureRun, UbusVirtualSequence.body, Prog.run_bind]
  rfl

theorem closure_items :
    (closureRun solver e tl nRepeat).2.account.items.length ≤ 3412 ∧
      (closureRun solver e tl nRepeat).2.account.paused = 3 := by
  obtain ⟨d, n, m, hsync, hrun, hlen, -⟩ := closureRun_snd solver e tl nRepeat
  rw [hsync.packets, List.length_map] at hlen
  rw [hrun]
  refine ⟨hlen, ?_⟩
  change d.account.paused + 3 = 3
  rw [hsync.paused]

theorem Sync.covers {e : Platform} {tl : Timeline} {n : Nat} {d : ClosureMoment} {m : Observed}
    (h : Sync e tl n d m) {b : Bin} (hb : m.covers b = true) :
    UbusCoverage.isCovered
      ((reports (d.tl.advance e.draw).reported).foldl UbusCoverage.write UbusCoverage.init)
      b.addr b.dir b.size = true := by
  rw [Observed.covers, h.covered, UbusCoverage.isCovered_foldl] at hb
  refine (UbusCoverage.isCovered_foldl _ _ _ _ _).mpr (hb.imp_right ?_)
  rintro ⟨p, hp, hbin⟩
  exact ⟨p, (reports_mono (Timeline.visible_prefix _ _ _)).subset (List.mem_of_mem_take hp), hbin⟩

theorem closure_covers
    (h : ⟨.inl (.warning .maxAttempts), ()⟩ ∉ (closureRun solver e tl nRepeat).2.account.log)
    {t : Target} (ht : t.Legal) (n : Nat) :
    UbusCoverage.isCovered
      ((reports (((closureRun solver e tl nRepeat).2.tl.advance e.draw).after e.draw n).reported).foldl
        UbusCoverage.write UbusCoverage.init) t.i t.dir t.s = true := by
  obtain ⟨d, k, m, hsync, hrun, -, hclosed⟩ := closureRun_snd solver e tl nRepeat
  rw [hrun] at h ⊢
  have hwarn : .warn .maxAttempts ∉ m.trace := by
    rw [hsync.warned]
    exact fun hmem => h (List.mem_append_left _ hmem)
  have hgrow : (d.tl.advance e.draw).reported <+:
      (((d.tl.after e.draw 3).advance e.draw).after e.draw n).reported := by
    rw [Timeline.advance_after]
    exact (Timeline.reported_after 3 _).trans (Timeline.reported_after n _)
  have hcov := hsync.covers (hclosed hwarn t ht)
  refine (UbusCoverage.isCovered_foldl _ _ _ _ _).mpr
    (((UbusCoverage.isCovered_foldl _ _ _ _ _).mp hcov).imp_right ?_)
  rintro ⟨p, hp, hbin⟩
  exact ⟨p, (reports_mono hgrow).subset hp, hbin⟩

end VirtualSequence

theorem isCovered_init {t : Target} (ht : t.Legal) :
    UbusCoverage.isCovered UbusCoverage.init t.i t.dir t.s = false := by
  have hlt : ∀ i : Fin 6, ∀ s < (sizeArray i).length, ¬(i.val = 3 ∧ s = 3) := by decide
  exact if_neg (hlt t.i t.s ht)

theorem Follows.driven_of_covered {tl : Timeline} {s : Testbench}
    (h : Follows UbusCoverage.init tl s) {t : Target} (ht : t.Legal)
    (hcov : UbusCoverage.isCovered s.coverage t.i t.dir t.s = true) :
    ∃ tr ∈ s.driven, binOf tr.val = t.bin := by
  have hcoverage : s.coverage = (reports tl.reported).foldl UbusCoverage.write UbusCoverage.init :=
    h.published.coverage
  rw [hcoverage, UbusCoverage.isCovered_foldl, isCovered_init ht] at hcov
  obtain ⟨p, hp, hbin⟩ := hcov.resolve_left Bool.false_ne_true
  have hmem : binOf p ∈ tl.reported.map fun x => binOf x.item.val := by
    rw [← reports_bins]
    exact List.mem_map_of_mem hp
  obtain ⟨x, hx, hxbin⟩ := List.mem_map.mp hmem
  refine ⟨x.item, ?_, hxbin.trans hbin⟩
  rw [h.driven]
  exact List.mem_append_left _ (List.mem_map_of_mem (tl.reported_prefix_opened.subset hx))

theorem itemEdges_le {draw : Nat → Draw} (hw : ∀ j, (draw j).waitState ≤ 3) (base : Nat)
    (items : List Item) : itemEdges draw base items ≤ items.length * 14 := by
  induction items using List.reverseRecOn with
  | nil => exact Nat.zero_le _
  | append_singleton items tr ih =>
    have hsize := tr.property.cSize
    have hwait := hw (base + items.length)
    simp only [List.mem_cons, List.not_mem_nil, or_false] at hsize
    rw [itemEdges_concat, transferEdges, List.length_append, List.length_singleton, Nat.succ_mul]
    split <;> omega

section Run

variable (solver : Solver) (e : Platform) (env : Env) (k₀ nRepeat : Nat)

def closureTest (k : Nat) : SequenceRun UbusVirtualSequence.Op UbusVirtualSequence.Res Unit :=
  SequenceRun.run (UbusVirtualSequence.client solver) e (Testbench.run env k₀)
    (UbusVirtualSequence.body nRepeat) k

theorem closureTest_rests :
    let tl := Timeline.run env k₀
    let out := (closureRun solver e tl nRepeat).2
    ∃ K, K ≤ max 1 (tl.busy e.draw) +
        itemEdges e.draw (Testbench.run env k₀).driven.length out.account.items + 3 ∧
      (∀ k < K, (closureTest solver e env k₀ nRepeat k).Pending) ∧
        ∀ k, K ≤ k → ∃ n, SequenceRun.Rests (e := e) (Testbench.run env k₀) () out.account
          ((out.tl.advance e.draw).after e.draw n) (closureTest solver e env k₀ nRepeat k) := by
  intro tl out
  have hfed : Fed (UbusVirtualSequence.client solver) (UbusVirtualSequence.body nRepeat) :=
    (UbusVirtualSequence.paired_body nRepeat).fed
  obtain ⟨K, hK, hwaited, hpending, hrests⟩ := SequenceRun.exists_rests (run_follows env k₀) e hfed
  have hpaused : out.account.paused = 3 := (closure_items solver e tl nRepeat).2
  refine ⟨K, ?_, hpending, ?_⟩
  · rw [hK]
    change 1 + out.waited + itemEdges e.draw _ out.account.items + out.account.paused ≤ _
    have hle : out.waited ≤ tl.busy e.draw - 1 := hwaited
    omega
  · intro k hk
    obtain ⟨n, rfl⟩ := Nat.exists_eq_add_of_le hk
    exact ⟨n, hrests n⟩

theorem closure_verdict {s : Testbench} {n : Nat}
    {c : SequenceRun UbusVirtualSequence.Op UbusVirtualSequence.Res Unit} {tl : Timeline}
    (h : SequenceRun.Rests (e := e) s () (closureRun solver e tl nRepeat).2.account
      (((closureRun solver e tl nRepeat).2.tl.advance e.draw).after e.draw n) c) :
    ⟨.inl (.warning .maxAttempts), ()⟩ ∈ c.account.log ∨
      ∀ t : Target, t.Legal → UbusCoverage.isCovered c.tb.coverage t.i t.dir t.s = true ∧
        ∃ tr ∈ c.tb.driven, binOf tr.val = t.bin := by
  rw [h.account]
  by_cases hwarn : ⟨.inl (.warning .maxAttempts), ()⟩ ∈
      (closureRun solver e tl nRepeat).2.account.log
  · exact .inl hwarn
  · refine .inr fun t ht => ?_
    have hcov : UbusCoverage.isCovered c.tb.coverage t.i t.dir t.s = true := by
      rw [h.follows.published.coverage]
      exact closure_covers solver e tl nRepeat hwarn ht n
    exact ⟨hcov, h.follows.driven_of_covered ht hcov⟩

end Run

theorem closure_test_ends (solver : Solver) (e : Platform) (hw : ∀ j, (e.draw j).waitState ≤ 3)
    (env : Env) (k₀ nRepeat : Nat) :
    let s := Testbench.run env k₀
    let c := SequenceRun.run (UbusVirtualSequence.client solver) e s (UbusVirtualSequence.body nRepeat)
    ∃ K ≤ max 1 ((Timeline.run env k₀).busy e.draw) + 47771,
      (∀ k < K, (c k).Pending) ∧
        ∀ k, K ≤ k → (c k).blocked = .ended ∧ (c k).account.items.length ≤ 3412 ∧
          (c k).tb.driven = s.driven ++ (c k).account.items ∧
          (SequenceRun.HasDriver s (c k).account →
            headers (c k).tb.returned = itemHeaders (c k).tb.driven) := by
  intro s c
  obtain ⟨K, hK, hpending, hrests⟩ := closureTest_rests solver e env k₀ nRepeat
  obtain ⟨hlen, -⟩ := closure_items solver e (Timeline.run env k₀) nRepeat
  have hedges := itemEdges_le hw (Testbench.run env k₀).driven.length
    (closureRun solver e (Timeline.run env k₀) nRepeat).2.account.items
  refine ⟨K, by omega, hpending, ?_⟩
  intro k hk
  obtain ⟨n, h⟩ := hrests k hk
  have hacc : (c k).account = _ := h.account
  rw [hacc]
  exact ⟨h.ended, hlen, h.completed.driven, h.completed.returned⟩

theorem closure_test_ends_halfWords :
    let e : Platform := ⟨fun _ => .fixed 3, fun _ => false, fun _ => false⟩
    ∃ K ≤ 47772, (SequenceRun.run (UbusVirtualSequence.client halfWords) e (.init UbusCoverage.init)
      (UbusVirtualSequence.body 4) K).blocked = .ended := by
  intro e
  let env : Env := ⟨fun _ => none, e.draw, e.slaveFirst⟩
  obtain ⟨K, hle, -, hended⟩ := closure_test_ends halfWords e (fun _ => le_rfl) env 0 4
  have hidle : (Timeline.run env 0).busy e.draw = 0 := rfl
  rw [hidle] at hle
  exact ⟨K, hle, (hended K le_rfl).1⟩

theorem closure_test_verdict (solver : Solver) (e : Platform) (env : Env) (k₀ nRepeat : Nat) :
    let s := Testbench.run env k₀
    let c := SequenceRun.run (UbusVirtualSequence.client solver) e s (UbusVirtualSequence.body nRepeat)
    ∃ K, (∀ k < K, (c k).Pending) ∧
      ∀ k, K ≤ k → (c k).blocked = .ended ∧
        (⟨.inl (.warning .maxAttempts), ()⟩ ∈ (c k).account.log ∨
          ∀ t : Target, t.Legal →
            UbusCoverage.isCovered (c k).tb.coverage t.i t.dir t.s = true ∧
              ∃ tr ∈ (c k).tb.driven, binOf tr.val = t.bin) := by
  intro s c
  obtain ⟨K, -, hpending, hrests⟩ := closureTest_rests solver e env k₀ nRepeat
  refine ⟨K, hpending, ?_⟩
  intro k hk
  obtain ⟨n, h⟩ := hrests k hk
  exact ⟨h.ended, closure_verdict solver e nRepeat h⟩

end UbusVip
