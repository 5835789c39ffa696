import UbusVip.Guarantees.Delivery
import UbusVip.Guarantees.WaitState

namespace UbusVip

open SlaveSequence (Draw)

def SlaveSequence.Draw.untimed (d : Draw) : Draw := { d with waitState := 0 }

def Packet.untimed (p : Packet) : Packet := { p with waitState := 0 }

def Stimulus.untimed (x : Stimulus) : Stimulus := (x.1, x.2.untimed)

def Transfer.untimed (t : Transfer) : Transfer where
  item := t.item
  rsp := t.rsp.untimed
  rsp_size := t.rsp_size
  rsp_read := t.rsp_read
  rsp_write := t.rsp_write
  rsp_data := t.rsp_data

theorem held_untimed (hist : List Stimulus) : held (hist.map Stimulus.untimed) = held hist := by
  rw [held, List.flatMap_map]
  rfl

theorem respond_untimed {req : Packet} (hd : req.write = !req.read) (m : SlaveSequence.Mem) (d : Draw) :
    (SlaveSequence.respond m req d.untimed).2 = (SlaveSequence.respond m req d).2.untimed := by
  rw [SlaveSequence.respond_rsp hd, SlaveSequence.respond_rsp hd]
  rfl

theorem Transfer.ext_rsp {t u : Transfer} (hitem : t.item = u.item) (hrsp : t.rsp = u.rsp) : t = u := by
  obtain ⟨item, rsp⟩ := t
  obtain ⟨item', rsp'⟩ := u
  subst hitem
  subst hrsp
  rfl

theorem Transfer.after_untimed (hist : List Stimulus) (x : Stimulus) :
    Transfer.after (hist.map Stimulus.untimed) x.untimed = (Transfer.after hist x).untimed := by
  refine Transfer.ext_rsp rfl ?_
  change (SlaveSequence.respond (held (hist.map Stimulus.untimed)) (request x.1) x.2.untimed).2 = _
  rw [held_untimed, respond_untimed (request_dir x.1)]
  rfl

theorem transfers_untimed (xs : List Stimulus) :
    transfers (xs.map Stimulus.untimed) = (transfers xs).map Transfer.untimed := by
  induction xs using List.reverseRecOn with
  | nil => rfl
  | append_singleton xs x ih =>
    rw [List.map_append, List.map_singleton, transfers_concat, transfers_concat, ih,
      Transfer.after_untimed, List.map_append, List.map_singleton]

theorem reports_untimed (ts : List Transfer) :
    (reports (ts.map Transfer.untimed)).map Packet.untimed = (reports ts).map Packet.untimed := by
  induction ts using List.reverseRecOn with
  | nil => rfl
  | append_singleton ts t ih =>
    have hempty : (ts.map Transfer.untimed).isEmpty = ts.isEmpty := by simp
    rw [List.map_append, List.map_singleton, reports_concat, reports_concat, List.map_append, ih,
      List.map_append, hempty]
    rfl

theorem score_untimed (ts : List Transfer) :
    score (reports (ts.map Transfer.untimed)) = score (reports ts) := by
  have herase (ps : List Packet) : score (ps.map Packet.untimed) = score ps := List.foldl_map
  rw [← herase, reports_untimed, herase]

theorem coverage_untimed (cov : CoveredBins) (ts : List Transfer) :
    (reports (ts.map Transfer.untimed)).foldl UbusCoverage.write cov =
      (reports ts).foldl UbusCoverage.write cov := by
  have herase (ps : List Packet) : (ps.map Packet.untimed).foldl UbusCoverage.write cov =
      ps.foldl UbusCoverage.write cov := List.foldl_map
  rw [← herase, reports_untimed, herase]

theorem stimuli_untimed (draw : Nat → Draw) (items : List Item) :
    (stimuli draw items).map Stimulus.untimed = stimuli (fun j => (draw j).untimed) items := by
  induction items using List.reverseRecOn with
  | nil => rfl
  | append_singleton items tr ih =>
    rw [stimuli_concat, List.map_append, ih, stimuli_concat]
    rfl

structure Drained (s : Testbench) : Prop where
  returned : s.returned.length = s.driven.length
  collected : s.masterCollected.length = s.driven.length

structure SameOutcome (s t : Testbench) : Prop where
  mem : s.slave.mem = t.slave.mem
  returned : s.returned = t.returned
  responses : s.slave.responses.map Packet.untimed = t.slave.responses.map Packet.untimed
  masterCollected : s.masterCollected.map Packet.untimed = t.masterCollected.map Packet.untimed
  slaveCollected : s.slaveCollected.map Packet.untimed = t.slaveCollected.map Packet.untimed
  scoreboard : s.scoreboard = t.scoreboard
  coverage : s.coverage = t.coverage

structure Determined (xs : List Stimulus) (s : Testbench) : Prop where
  mem : s.slave.mem = held xs
  returned : s.returned = (transfers xs).map fun t => t.handed t.size
  responses : s.slave.responses.map Packet.untimed = (transfers xs).map fun t => t.rsp.untimed
  masterCollected : s.masterCollected.map Packet.untimed = (reports (transfers xs)).map Packet.untimed
  slaveCollected : s.slaveCollected.map Packet.untimed = (reports (transfers xs)).map Packet.untimed
  scoreboard : s.scoreboard = score (reports (transfers xs))
  coverage : s.coverage = (reports (transfers xs)).foldl UbusCoverage.write UbusCoverage.init

theorem Determined.same {xs : List Stimulus} {s t : Testbench} (h : Determined xs s)
    (g : Determined xs t) : SameOutcome s t where
  mem := h.mem.trans g.mem.symm
  returned := h.returned.trans g.returned.symm
  responses := h.responses.trans g.responses.symm
  masterCollected := h.masterCollected.trans g.masterCollected.symm
  slaveCollected := h.slaveCollected.trans g.slaveCollected.symm
  scoreboard := h.scoreboard.trans g.scoreboard.symm
  coverage := h.coverage.trans g.coverage.symm

theorem drained_opened {env : Env} {k : Nat} (h : Drained (Testbench.run env k)) :
    let tl := Timeline.run env k
    tl.finished = tl.opened ∧ tl.reported = tl.opened ∧
      tl.opened.map (·.item) = (Testbench.run env k).driven := by
  intro tl
  have hs := run_follows env k
  have hitems : (Testbench.run env k).driven = tl.opened.map (·.item) ++ tl.pending := hs.driven
  have hfinished := tl.finished_prefix_opened
  have hreported := tl.reported_prefix_opened
  have hreturned := h.returned
  have hcollected := h.collected
  rw [hs.returned, List.length_map, hitems, List.length_append, List.length_map] at hreturned
  rw [hs.published.masterCollected, hitems, List.length_append, List.length_map] at hcollected
  have hlen := hfinished.length_le
  have hlen' := hreported.length_le
  change tl.finished.length = _ at hreturned
  rw [show (reports (Timeline.run env k).view.reported).length = tl.reported.length from
    reportsFrom_length true _] at hcollected
  have hpending : tl.pending = [] := List.length_eq_zero_iff.mp (by omega)
  refine ⟨hfinished.eq_of_length (by omega), hreported.eq_of_length (by omega), ?_⟩
  rw [hitems, hpending, List.append_nil]

theorem drained_determined {env : Env} {k : Nat} (h : Drained (Testbench.run env k)) :
    Determined (stimuli (fun j => (env.draw j).untimed) (Testbench.run env k).driven)
      (Testbench.run env k) := by
  let tl := Timeline.run env k
  let xs := stimuli env.draw (Testbench.run env k).driven
  have hs := run_follows env k
  obtain ⟨hfinished, hreported, hitems⟩ := drained_opened h
  have hopened : tl.opened = transfers xs := by
    rw [(Timeline.run_recorded env k).opened, hitems]
  have hmem : tl.mem = held xs := by
    rw [(Timeline.run_recorded env k).mem, hitems]
  have hreports : reports tl.reported = reports (transfers xs) := by rw [hreported, hopened]
  rw [← stimuli_untimed]
  constructor
  · rw [hs.mem, held_untimed]
    exact hmem
  · rw [hs.returned, transfers_untimed, List.map_map, ← hopened, ← hfinished]
    rfl
  · rw [hs.served.responses, transfers_untimed, List.map_map, List.map_map, ← hopened]
    rfl
  · rw [hs.published.masterCollected, transfers_untimed, reports_untimed, ← hreports]
    rfl
  · rw [hs.published.slaveCollected, transfers_untimed, reports_untimed, ← hreports]
    rfl
  · rw [hs.published.scoreboard, transfers_untimed, score_untimed, ← hreports]
    rfl
  · rw [hs.published.coverage, transfers_untimed, coverage_untimed, ← hreports]
    rfl

theorem timing_independent {env env' : Env} {k k' : Nat}
    (hdriven : (Testbench.run env k).driven = (Testbench.run env' k').driven)
    (hfill : ∀ j, (env.draw j).fill = (env'.draw j).fill)
    (h : Drained (Testbench.run env k)) (h' : Drained (Testbench.run env' k')) :
    SameOutcome (Testbench.run env k) (Testbench.run env' k') := by
  have hdraw : (fun j => (env.draw j).untimed) = fun j => (env'.draw j).untimed := by
    funext j
    rw [SlaveSequence.Draw.untimed, hfill j]
    rfl
  have hdet := drained_determined h
  rw [hdraw, hdriven] at hdet
  exact hdet.same (drained_determined h')

def Env.hurried : Env := .scripted [(2, wordWrite), (7, wordRead)] (.fixed 0)

theorem timing_independent_hurried :
    SameOutcome (Testbench.run .writeThenRead 16) (Testbench.run .hurried 14) :=
  timing_independent (by decide) (fun _ => rfl) ⟨by decide, by decide⟩ ⟨by decide, by decide⟩

end UbusVip
