import UbusVip.Guarantees.Verdict

namespace UbusVip

open FilledMemory (replay)

def InsideMap (p : Packet) : Prop :=
  p.addr.toNat + p.size ≤ 65536 ∧
    ¬(p.size = 8 ∧ (16377 ≤ p.addr.toNat ∧ p.addr.toNat ≤ 16383))

structure KeysInMap (s : Testbench) : Prop where
  slave : ∀ a, (s.slave.mem a).isSome → a ≤ 65535
  scoreboard : ∀ a, (s.scoreboard.memExpected a).isSome → a ≤ 65535
  peripheral : ∀ rsp ∈ s.slave.responses, rsp.size = 8 →
    ∀ a ∈ rsp.span, ¬(16384 ≤ a ∧ a ≤ 20479)

theorem held_isSome (hist : List Stimulus) (a : Nat) :
    (held hist a).isSome ↔ ∃ tr ∈ hist.map Prod.fst, Covers tr a := by
  have hkeys (x : Stimulus) : (∃ acc ∈ x.accesses, acc.key = a) ↔ Covers x.1 a := by
    rw [Stimulus.accesses]
    split
    · exact FilledMemory.key_touches ..
    · exact FilledMemory.key_writes ..
  rw [held, FilledMemory.replay_flatMap_isSome]
  simp only [hkeys]
  simp

theorem score_isSome {ps : List Packet} (h : ∀ p ∈ ps, p.write = !p.read) (a : Nat) :
    ((score ps).memExpected a).isSome ↔ ∃ p ∈ ps, a ∈ p.span := by
  have hkeys (p : Packet) : (∃ acc ∈ p.accesses, acc.key = a) ↔ a ∈ p.span := by
    rw [Packet.accesses]
    split
    · exact FilledMemory.key_writes ..
    · exact FilledMemory.key_touches ..
  rw [(score_spec ps h).1, FilledMemory.replay_flatMap_isSome]
  simp only [hkeys]
  simp

theorem slave_key_iff (env : Env) (k a : Nat) :
    ((Testbench.run env k).slave.mem a).isSome ↔
      ∃ t ∈ (Timeline.run env k).opened, Covers t.item a := by
  have hmem : (Testbench.run env k).slave.mem = (Timeline.run env k).mem := (run_follows env k).mem
  rw [hmem, (Timeline.run_recorded env k).mem, held_isSome, stimuli_fst]
  simp

theorem scoreboard_key {env : Env} {k a : Nat}
    (h : ((Testbench.run env k).scoreboard.memExpected a).isSome) :
    ∃ t ∈ (Timeline.run env k).opened, Covers t.item a := by
  rw [(run_follows env k).published.scoreboard, score_isSome (reports_dir _)] at h
  obtain ⟨p, hp, ha⟩ := h
  obtain ⟨j, hj⟩ := List.mem_iff_getElem?.mp hp
  have hcollected : (Testbench.run env k).masterCollected[j]? = some p := by
    rw [(run_follows env k).published.masterCollected]
    exact hj
  obtain ⟨t, ht, rfl⟩ := collected_get (.inl hcollected)
  exact ⟨t, List.mem_of_getElem? ht, ha⟩

theorem opened_driven {env : Env} {k : Nat} {t : Transfer} (h : t ∈ (Timeline.run env k).opened) :
    t.item ∈ (Testbench.run env k).driven := by
  obtain ⟨j, hj⟩ := List.mem_iff_getElem?.mp h
  exact List.mem_of_getElem? (opened_get hj).1

theorem driven_opened {env : Env} {k : Nat} {tr : Item} (h : tr ∈ (Testbench.run env k).driven) :
    ∃ n, ∃ t ∈ (Timeline.run env n).opened, t.item = tr := by
  have hitems : tr ∈ (Timeline.run env k).items := by
    rw [(run_follows env k).driven] at h
    exact h
  rw [← Timeline.finished_at, List.mem_map] at hitems
  obtain ⟨t, ht, rfl⟩ := hitems
  exact ⟨_, t, (Timeline.run env _).finished_prefix_opened.subset ht, rfl⟩

theorem response_span {env : Env} {k : Nat} {rsp : Packet}
    (h : rsp ∈ (Testbench.run env k).slave.responses) :
    ∃ t ∈ (Timeline.run env k).opened, rsp = t.rsp := by
  rw [(run_follows env k).served.responses, List.mem_map] at h
  obtain ⟨t, ht, rfl⟩ := h
  exact ⟨t, ht, rfl⟩

theorem opened_span {env : Env} {k : Nat} {t : Transfer} (h : t ∈ (Timeline.run env k).opened) :
    t.rsp.span = t.item.val.span := by
  obtain ⟨j, hj⟩ := List.mem_iff_getElem?.mp h
  rw [opened_after hj]
  change (SlaveSequence.respond _ (request t.item) _).2.span = _
  rw [SlaveSequence.respond_rsp (request_dir t.item)]
  rfl

theorem driven_offered {env : Env} {k : Nat} {tr : Item}
    (h : tr ∈ (Testbench.run env k).driven) : ∃ j, env.offer j = some tr := by
  induction k with
  | zero => cases h
  | succ k ih =>
    have hedge : ((Testbench.run env k).edge env.draw (env.slaveFirst k)).driven =
        (Testbench.run env k).driven := rfl
    change tr ∈ (Testbench.accept (env.offer k)
      ((Testbench.run env k).edge env.draw (env.slaveFirst k))).driven at h
    rcases Testbench.accept_cases (env.offer k) _ with hacc | ⟨tr', hoffer, hacc⟩
    · rw [hacc, hedge] at h
      exact ih h
    · rw [hacc, List.mem_append, List.mem_singleton, hedge] at h
      rcases h with h | rfl
      · exact ih h
      · exact ⟨k, hoffer⟩

theorem InsideMap.span {p : Packet} (h : InsideMap p) (hlegal : p.globalLegality) {a : Nat}
    (ha : a ∈ p.span) : a ≤ 65535 ∧ (p.size = 8 → ¬(16384 ≤ a ∧ a ≤ 20479)) := by
  obtain ⟨htop, hedge⟩ := h
  simp only [Packet.globalLegality] at hlegal
  have hspan := (p.mem_span a).mp ha
  omega

theorem insideMap_of_span {p : Packet} (hsize : 0 < p.size) (htop : ∀ a ∈ p.span, a ≤ 65535)
    (hperipheral : p.size = 8 → ∀ a ∈ p.span, ¬(16384 ≤ a ∧ a ≤ 20479)) : InsideMap p := by
  have hlast := htop (p.addr.toNat + p.size - 1) ((p.mem_span _).mpr (by omega))
  refine ⟨by omega, ?_⟩
  rintro ⟨h8, hlo, hhi⟩
  exact hperipheral h8 16384 ((p.mem_span _).mpr (by omega)) (by omega)

theorem keys_in_map_iff {env : Env}
    (hlegal : ∀ k tr, env.offer k = some tr → tr.val.globalLegality) :
    (∀ k, KeysInMap (Testbench.run env k)) ↔
      ∀ k, ∀ tr ∈ (Testbench.run env k).driven, InsideMap tr.val := by
  constructor
  · intro h k tr htr
    obtain ⟨n, t, hopen, rfl⟩ := driven_opened htr
    refine insideMap_of_span t.size_pos ?_ ?_
    · intro a ha
      exact (h n).slave a ((slave_key_iff env n a).mpr ⟨t, hopen, ha⟩)
    · intro h8 a ha
      have hrsp : t.rsp ∈ (Testbench.run env n).slave.responses := by
        rw [(run_follows env n).served.responses]
        exact List.mem_map_of_mem hopen
      exact (h n).peripheral t.rsp hrsp (t.rsp_size.trans h8) a (opened_span hopen ▸ ha)
  · intro h k
    have hinside {t : Transfer} (ht : t ∈ (Timeline.run env k).opened) {a : Nat}
        (ha : Covers t.item a) :
        a ≤ 65535 ∧ (t.item.val.size = 8 → ¬(16384 ≤ a ∧ a ≤ 20479)) := by
      have hdriven := opened_driven ht
      obtain ⟨j, hoffer⟩ := driven_offered hdriven
      exact (h k t.item hdriven).span (hlegal j t.item hoffer) ha
    constructor
    · intro a ha
      obtain ⟨t, ht, hcov⟩ := (slave_key_iff env k a).mp ha
      exact (hinside ht hcov).1
    · intro a ha
      obtain ⟨t, ht, hcov⟩ := scoreboard_key ha
      exact (hinside ht hcov).1
    · intro rsp hrsp h8 a ha
      obtain ⟨t, ht, rfl⟩ := response_span hrsp
      have hcov : Covers t.item a := by
        rw [opened_span ht] at ha
        exact ha
      exact (hinside ht hcov).2 (t.rsp_size.symm.trans h8)

def topWrite : Item :=
  ⟨{ Packet.create with addr := 65535, write := true, size := 2, data := [1, 2] }, by decide⟩

def straddlingRead : Item :=
  ⟨{ Packet.create with
      addr := 16380, read := true, size := 8, data := List.replicate 8 0 }, by decide⟩

def Env.acrossEdges : Env := .scripted [(0, topWrite), (8, straddlingRead)] (.fixed 0)

theorem scripted_offer {offers : List (Nat × Item)} {draw : SlaveSequence.Draw} {k : Nat} {tr : Item}
    (h : (Env.scripted offers draw).offer k = some tr) : (k, tr) ∈ offers := by
  change offers.lookup k = some tr at h
  obtain ⟨l, r, rfl, -⟩ := List.lookup_eq_some_iff.mp h
  simp

theorem acrossEdges_legal (k : Nat) (tr : Item) (h : Env.acrossEdges.offer k = some tr) :
    tr.val.globalLegality := by
  have hall : ∀ o ∈ [(0, topWrite), (8, straddlingRead)], o.2.val.globalLegality := by decide
  exact hall _ (scripted_offer h)

theorem keys_in_map_iff_acrossEdges :
    (∀ k, KeysInMap (Testbench.run .acrossEdges k)) ↔
      ∀ k, ∀ tr ∈ (Testbench.run .acrossEdges k).driven, InsideMap tr.val :=
  keys_in_map_iff acrossEdges_legal

theorem acrossEdges_outside :
    (∀ k tr, Env.acrossEdges.offer k = some tr → tr.val.globalLegality) ∧
      (¬∀ a, ((Testbench.run .acrossEdges 12).slave.mem a).isSome → a ≤ 65535) ∧
      (¬∀ a, ((Testbench.run .acrossEdges 12).scoreboard.memExpected a).isSome → a ≤ 65535) ∧
      ∃ rsp ∈ (Testbench.run .acrossEdges 12).slave.responses, rsp.size = 8 ∧ 16384 ∈ rsp.span := by
  refine ⟨acrossEdges_legal, ?_, ?_, ?_⟩
  · intro h
    exact absurd (h 65536 (by decide)) (by decide)
  · intro h
    exact absurd (h 65536 (by decide)) (by decide)
  · exact ⟨(Testbench.run .acrossEdges 12).slave.responses.getD 1 .create, by decide, by decide,
      by decide⟩

end UbusVip
