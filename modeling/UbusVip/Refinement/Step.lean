import UbusVip.Refinement.Drivers
import UbusVip.Refinement.Monitors

namespace UbusVip

open FourState
open SlaveSequence (Draw Mem respond)

variable {cov : CoveredBins} {s : Testbench} {past : List Transfer} {mem : Mem}
  {late : Option Transfer}

theorem report_pair (slaveFirst : Bool) {p : Packet} (hd : p.write = !p.read)
    (sb : UbusScoreboard) :
    Testbench.report slaveFirst [p] [p] sb = (sb.writeMaster p).writeSlave p := by
  cases hr : p.read with
  | true =>
    have hw : p.write = false := by rw [hd, hr]; rfl
    cases slaveFirst <;> simp [Testbench.report, UbusScoreboard.writeMaster_read hw]
  | false => cases slaveFirst <;> simp [Testbench.report, UbusScoreboard.writeSlave_write hr]

@[simp] theorem report_none (slaveFirst : Bool) (sb : UbusScoreboard) :
    Testbench.report slaveFirst [] [] sb = sb := by
  cases slaveFirst <;> rfl

theorem report_dir (first : Bool) (t : Transfer) :
    (t.report first).write = !(t.report first).read := t.item.write_eq

theorem score_concat (ps : List Packet) (p : Packet) :
    score (ps ++ [p]) = ((score ps).writeMaster p).writeSlave p := by
  simp [score, List.foldl_append]

theorem reports_late (past : List Transfer) (late : Option Transfer) :
    reports (if past.isEmpty then late.toList else past) ++ lateReports past late =
      reports (past ++ late.toList) := by
  cases hp : past.isEmpty with
  | true =>
    rw [List.isEmpty_iff] at hp
    simp [hp, lateReports]
  | false => cases late <;> simp [lateReports, hp]

theorem slave_edge_late (late : Option Transfer) :
    SlaveDriver.edge (Timeline.lateSlave late) = ⟨.getNextItem, id, late.isSome⟩ := by
  cases late <;> rfl

theorem sequence_late (late : Option Transfer) :
    (if late.isSome then SlaveSequence.Loc.get else Timeline.lateSequence late) = .get := by
  cases late <;> rfl

theorem started_late (past : List Transfer) (late : Option Transfer) :
    (!(past ++ late.toList).isEmpty) = (!past.isEmpty || late.isSome) := by
  cases late <;> cases past <;> rfl

theorem reported_idle (past : List Transfer) (mem : Mem) :
    Timeline.reported ⟨past, .idle none, mem⟩ = past := by
  cases past <;> rfl

def OneReport (c : List Packet) : Prop := c = [] ∨ ∃ p, p.write = !p.read ∧ c = [p]

theorem oneReport_late (past : List Transfer) (late : Option Transfer) :
    OneReport (lateReports past late) := by
  simp only [lateReports]
  split
  · exact .inl rfl
  · cases late with
    | none => exact .inl rfl
    | some t => exact .inr ⟨_, report_dir false t, rfl⟩

theorem Published.collect {ps c : List Packet} {mm sm : Monitor.Act} (h : Published cov ps s)
    (hm : mm.collected = c) (hs : sm.collected = c) (hc : OneReport c) (slaveFirst : Bool) :
    Published cov (ps ++ c) (Testbench.collect slaveFirst mm sm s) := by
  subst hm
  refine ⟨?_, ?_, ?_, ?_⟩
  · simp [Testbench.collect, h.masterCollected]
  · simp [Testbench.collect, h.slaveCollected, hs]
  · simp only [Testbench.collect, h.scoreboard, hs]
    rcases hc with hc | ⟨p, hp, hc⟩
    · simp [hc]
    · rw [hc, report_pair slaveFirst hp, score_concat]
  · simp [Testbench.collect, h.coverage, List.foldl_append]

theorem Published.drive {ps : List Packet} (h : Published cov ps s) (md : MasterDriver.Act) :
    Published cov ps (Testbench.drive md s) := ⟨h.1, h.2, h.3, h.4⟩

theorem Published.handOff {ps : List Packet} (h : Published cov ps s) (draw : Nat → Draw)
    (sd : SlaveDriver.Act) : Published cov ps (Testbench.handOff draw sd s) :=
  ⟨h.1, h.2, h.3, h.4⟩

theorem handOff_nil (h : s.requestFifo = []) (draw : Nat → Draw) (sd : SlaveDriver.Act) :
    Testbench.handOff draw sd s = { s with
      bus := sd.nba s.bus
      slave := { s.slave with
        driver := sd.loc
        sequence := if sd.itemDone then .get else s.slave.sequence }
      requestFifo := [] } := by
  simp only [Testbench.handOff, h, Testbench.serve]

theorem handOff_single {n : Nat} (h : s.requestFifo = [n]) (hseq : s.slave.sequence = .get)
    (draw : Nat → Draw) :
    let out := respond s.slave.mem (s.objects n) (draw s.slave.responses.length)
    let act := SlaveDriver.drive out.2 0
    Testbench.handOff draw ⟨.getNextItem, id, false⟩ s = { s with
      bus := act.nba s.bus
      slave :=
        { mem := out.1
          sequence := if act.itemDone then .get else .finishItem out.2
          driver := act.loc
          responses := s.slave.responses ++ [out.2] }
      requestFifo := [] } := by
  intro out act
  simp only [Testbench.handOff, h, hseq, Testbench.serve, Bool.false_eq_true, if_false]
  rfl

section Active

variable {v v' : View} {c : List Packet}

theorem shows_active (h : Shows cov v s) (draw : Nat → Draw) (slaveFirst : Bool)
    (hmd : (MasterDriver.edge s.bus v.master).loc = v'.master)
    (hmm : MasterMonitor.edge s.bus v.monitor = ⟨v'.monitor, [], c⟩)
    (hsm : SlaveMonitor.edge s.bus v.monitor = ⟨v'.monitor, [], c⟩)
    (hsd : (SlaveDriver.edge v.slave).loc = v'.slave)
    (hseq : (if (SlaveDriver.edge v.slave).itemDone then .get else v.sequence) = v'.sequence)
    (hmem : v.mem = v'.mem)
    (hpins : v'.pins ((SlaveDriver.edge v.slave).nba ((MasterDriver.edge s.bus v.master).nba s.bus)))
    (hitems : v.items = v'.items)
    (hret : (v.finished.map fun t => t.handed t.size) ++
        (MasterDriver.edge s.bus v.master).itemDone.toList =
      v'.finished.map fun t => t.handed t.size)
    (hopened : v.opened = v'.opened)
    (hc : OneReport c) (hrep : reports v.reported ++ c = reports v'.reported) :
    Shows cov v' (Testbench.active draw slaveFirst s) := by
  rw [← h.masterMonitor] at hmm
  rw [← h.slaveMonitor] at hsm
  rw [← h.master] at hmd hpins hret
  rw [← h.slaveDriver] at hsd hpins hseq
  have hfifo : (Testbench.drive (MasterDriver.edge s.bus s.masterDriver)
      (Testbench.collect slaveFirst (MasterMonitor.edge s.bus s.masterMonitor)
        (SlaveMonitor.edge s.bus s.slaveMonitor) s)).requestFifo = [] := by
    simp [Testbench.drive, Testbench.collect, hsm, h.served.fifo]
  have hpub := ((h.published.collect (congrArg Monitor.Act.collected hmm)
    (congrArg Monitor.Act.collected hsm) hc slaveFirst).drive
      (MasterDriver.edge s.bus s.masterDriver)).handOff draw (SlaveDriver.edge s.slave.driver)
  rw [hrep] at hpub
  have hact : Testbench.active draw slaveFirst s = _ :=
    handOff_nil hfifo draw (SlaveDriver.edge s.slave.driver)
  constructor
  · rw [hact]; exact hmd
  · rw [hact]; exact congrArg Monitor.Act.loc hmm
  · rw [hact]; exact congrArg Monitor.Act.loc hsm
  · rw [hact]; exact hsd
  · rw [hact, ← hseq, ← h.sequence]; rfl
  · rw [hact, ← hmem, ← h.mem]; rfl
  · rw [hact]; exact hpins
  · rw [hact, ← hitems, ← h.driven]; rfl
  · rw [hact, ← hret, ← h.returned]; rfl
  · rw [hact, ← hopened]
    refine ⟨rfl, ?_, h.served.responses⟩
    simp [Testbench.drive, Testbench.collect, hsm, h.served.requests]
  · exact hpub

end Active

section Phases

variable (draw : Nat → Draw) (slaveFirst : Bool)

theorem late_monitors (past : List Transfer) {started : Bool} (hq : Quiet started s.bus)
    (hz : late.isSome → s.bus.ubusData = .z) :
    MasterMonitor.edge s.bus (Timeline.lateMonitor past late) = ⟨.top, [], lateReports past late⟩ ∧
    SlaveMonitor.edge s.bus (Timeline.lateMonitor past late) = ⟨.top, [], lateReports past late⟩ :=
  ⟨edge_lateMonitor (silent_master hq.read hq.write) past late hz,
    edge_lateMonitor (silent_slave hq.read hq.write) past late hz⟩

theorem active_idle (h : Follows cov ⟨past, .idle late, mem⟩ s) :
    Follows cov ⟨past ++ late.toList, .idle none, mem⟩ (Testbench.active draw slaveFirst s) := by
  obtain ⟨hq, hz⟩ := h.pins
  obtain ⟨hmm, hsm⟩ := late_monitors past hq hz
  have hsd := slave_edge_late late
  refine shows_active h draw slaveFirst rfl hmm hsm (congrArg SlaveDriver.Act.loc hsd) ?_ rfl ?_
    ?_ ?_ ?_ (oneReport_late past late) ?_
  · exact (congrArg (fun act => if act.itemDone then SlaveSequence.Loc.get
      else Timeline.lateSequence late) hsd).trans (sequence_late late)
  · change Timeline.Pins ⟨past ++ late.toList, .idle none, mem⟩
      ((SlaveDriver.edge (Timeline.lateSlave late)).nba s.bus)
    rw [hsd]
    refine ⟨?_, nofun⟩
    rw [started_late]
    simpa using hq
  · simp [Timeline.view, Timeline.items, Timeline.opened, Timeline.pending]
  · simp [Timeline.view, Timeline.finished, MasterDriver.edge, Timeline.masterLoc]
  · simp [Timeline.view, Timeline.opened]
  · simp only [Timeline.view, reported_idle]
    exact reports_late past late

theorem active_command {tr : Item} (h : Follows cov ⟨past, .command late tr, mem⟩ s) :
    Follows cov ⟨past ++ late.toList, .address tr, mem⟩ (Testbench.active draw slaveFirst s) := by
  obtain ⟨hq, hz⟩ := h.pins
  obtain ⟨hmm, hsm⟩ := late_monitors past hq hz
  obtain ⟨hloc, hdone, hpins⟩ := master_edge_command tr hq
  have hsd := slave_edge_late late
  refine shows_active h draw slaveFirst hloc hmm hsm (congrArg SlaveDriver.Act.loc hsd) ?_ rfl ?_
    ?_ ?_ ?_ (oneReport_late past late) ?_
  · exact (congrArg (fun act => if act.itemDone then SlaveSequence.Loc.get
      else Timeline.lateSequence late) hsd).trans (sequence_late late)
  · change Timeline.Pins ⟨past ++ late.toList, .address tr, mem⟩
      ((SlaveDriver.edge (Timeline.lateSlave late)).nba
        ((MasterDriver.edge s.bus (.command tr.val)).nba s.bus))
    rw [hsd]
    change Commanded (!(past ++ late.toList).isEmpty) tr _
    rw [started_late]
    exact hpins
  · simp [Timeline.view, Timeline.items, Timeline.opened, Timeline.pending]
  · change _ ++ (MasterDriver.edge s.bus (.command tr.val)).itemDone.toList = _
    rw [hdone]
    simp [Timeline.view, Timeline.finished]
  · simp [Timeline.view, Timeline.opened]
  · exact reports_late past late

theorem active_tail {t : Transfer} {hr : t.read = false}
    (h : Follows cov ⟨past, .tail t hr, mem⟩ s) :
    Follows cov ⟨past ++ [t], .idle none, mem⟩ (Testbench.active draw slaveFirst s) := by
  obtain ⟨hq, hz⟩ := h.pins
  obtain ⟨hmm, hsm⟩ := late_monitors past hq fun _ : (some t).isSome => hz
  refine shows_active h draw slaveFirst rfl hmm hsm rfl rfl rfl ?_ ?_ ?_ ?_
    (oneReport_late past (some t)) ?_
  · have hstart : (!(past ++ [t]).isEmpty || (none : Option Transfer).isSome) = true := by simp
    change Quiet (!(past ++ [t]).isEmpty || (none : Option Transfer).isSome) s.bus ∧ _
    rw [hstart]
    exact ⟨hq, nofun⟩
  · simp [Timeline.view, Timeline.items, Timeline.opened, Timeline.pending]
  · simp [Timeline.view, Timeline.finished, Timeline.masterLoc, MasterDriver.edge,
      MasterDriver.itemDone, t.handed_of_write hr]
  · simp [Timeline.view, Timeline.opened]
  · simp only [Timeline.view, reported_idle]
    exact reports_late past (some t)

def Timeline.answered (past : List Transfer) (t : Transfer) (mem : Mem) : View :=
  { Timeline.view ⟨past, firstBeat t, mem⟩ with
    master := .waitLow t.item.val
    monitor := waitMonitor past t t.waits
    pins := Carrying t 0 .zero }

theorem edge_waiting (past : List Transfer) {b : Bus} (hw : b.ubusWait = .one) (t : Transfer) (n : Nat) :
    MasterMonitor.edge b (Timeline.waitMonitor past t n) =
        ⟨Timeline.waitMonitor past t (n + 1), [], []⟩ ∧
      SlaveMonitor.edge b (Timeline.waitMonitor past t n) =
        ⟨Timeline.waitMonitor past t (n + 1), [], []⟩ := by
  unfold Timeline.waitMonitor
  cases past.isEmpty with
  | true => exact ⟨rfl, rfl⟩
  | false => exact ⟨edge_waitHigh_one hw _ _ n, edge_waitHigh_one hw _ _ n⟩

theorem active_wait {t : Transfer} {i : Fin t.waits} (h : Follows cov ⟨past, .wait t i, mem⟩ s) :
    let s' := Testbench.active draw slaveFirst s
    if hi : i + 1 < t.waits then Follows cov ⟨past, .wait t ⟨i + 1, hi⟩, mem⟩ s'
    else Shows cov (Timeline.answered past t mem) s' := by
  have hc : Carrying t 0 .one s.bus := h.pins
  obtain ⟨hmm, hsm⟩ := edge_waiting past hc.wait t i
  obtain ⟨hloc, hdone, hpins⟩ := slave_drive (i + 1) hc.released
  have hseq : (if (SlaveDriver.drive t.rsp (i + 1)).itemDone then SlaveSequence.Loc.get
      else .finishItem t.rsp) = .finishItem t.rsp := by rw [hdone]; rfl
  by_cases hi : i + 1 < t.waits
  · simp only [dif_pos hi]
    simp only [answer, answerWait, if_pos hi] at hloc hpins
    refine shows_active h draw slaveFirst rfl hmm hsm hloc hseq rfl hpins rfl ?_ rfl (.inl rfl) ?_
    · exact List.append_nil _
    · exact List.append_nil _
  · have hlast : i + 1 = t.waits := by omega
    simp only [dif_neg hi]
    simp only [answer, answerWait, if_neg hi] at hloc hpins
    rw [hlast] at hmm hsm
    refine shows_active h draw slaveFirst rfl hmm hsm hloc hseq rfl hpins rfl ?_ rfl (.inl rfl) ?_
    · exact List.append_nil _
    · exact List.append_nil _

theorem edge_beat (past : List Transfer) {b : Bus} {t : Transfer} {i : Nat} (hi : i + 1 < t.size)
    (hc : Carrying t i .zero b) :
    MasterMonitor.edge b (Timeline.beatMonitor past t i) =
        ⟨Timeline.beatMonitor past t (i + 1), [], []⟩ ∧
      SlaveMonitor.edge b (Timeline.beatMonitor past t i) =
        ⟨Timeline.beatMonitor past t (i + 1), [], []⟩ := by
  unfold Timeline.beatMonitor
  have hd : b.ubusData.toBits = t.byte i := by rw [hc.data, LogicVec.toBits_known]
  cases past.isEmpty with
  | true =>
    have hv : b.ubusData.toBits = t.sampled true i := hd
    exact ⟨edge_beat_more t true hv hi, edge_beat_more t true hv hi⟩
  | false =>
    cases i with
    | zero => exact ⟨edge_waitHigh_zero hc.wait t, edge_waitHigh_zero hc.wait t⟩
    | succ i =>
      have hv : b.ubusData.toBits = t.sampled false i := by
        rw [hd, Transfer.sampled, if_neg Bool.false_ne_true, if_pos (by omega)]
      exact ⟨edge_beat_more t false hv (by omega), edge_beat_more t false hv (by omega)⟩

theorem active_beat {t : Transfer} {i : Fin t.size} (hi : i + 1 < t.size)
    (h : Follows cov ⟨past, .beat t i, mem⟩ s) :
    Follows cov ⟨past, .beat t ⟨i + 1, hi⟩, mem⟩ (Testbench.active draw slaveFirst s) := by
  obtain ⟨hc, -⟩ := h.pins
  obtain ⟨hmm, hsm⟩ := edge_beat past hi hc
  obtain ⟨hmloc, hmdone, hmbip, hmpins⟩ := master_edge_beat t hi hc
  obtain ⟨hloc, hdone, hpins, hbip⟩ := slave_edge_beat hi hmpins
  refine shows_active h draw slaveFirst hmloc hmm hsm hloc ?_ rfl ⟨hpins, hbip.trans hmbip⟩ rfl ?_
    rfl (.inl rfl) ?_
  · change (if (SlaveDriver.edge (.dataEdge t.rsp i)).itemDone then SlaveSequence.Loc.get
      else .finishItem t.rsp) = _
    rw [hdone]; rfl
  · change _ ++ (MasterDriver.edge s.bus (.beat (t.handed (i + 1)) i)).itemDone.toList = _
    rw [hmdone]
    exact List.append_nil _
  · exact List.append_nil _

def firstReport (past : List Transfer) (t : Transfer) : List Packet :=
  if past.isEmpty then [t.report true] else []

theorem oneReport_first (past : List Transfer) (t : Transfer) : OneReport (firstReport past t) := by
  rw [firstReport]
  split
  · exact .inr ⟨_, report_dir true t, rfl⟩
  · exact .inl rfl

theorem reports_first (past : List Transfer) (t : Transfer) :
    reports past ++ firstReport past t = reports (if past.isEmpty then [t] else past) := by
  cases past with
  | nil => rfl
  | cons u past => simp [firstReport]

theorem edge_lastBeat (past : List Transfer) {b : Bus} {t : Transfer} (hc : Carrying t (t.size - 1) .zero b) :
    MasterMonitor.edge b (Timeline.beatMonitor past t (t.size - 1)) =
        ⟨Timeline.lateMonitor past (some t), [], firstReport past t⟩ ∧
      SlaveMonitor.edge b (Timeline.beatMonitor past t (t.size - 1)) =
        ⟨Timeline.lateMonitor past (some t), [], firstReport past t⟩ := by
  have hpos := t.size_pos
  have hd : b.ubusData.toBits = t.byte (t.size - 1) := by rw [hc.data, LogicVec.toBits_known]
  have hr : b.ubusRead ≠ .one := by rw [hc.read]; decide
  have hw : b.ubusWrite ≠ .one := by rw [hc.write]; decide
  have hlast : t.size - 1 + 1 = t.size := by omega
  cases hp : past.isEmpty with
  | true =>
    have hv : b.ubusData.toBits = t.sampled true (t.size - 1) := hd
    simp only [Timeline.beatMonitor, Timeline.lateMonitor, firstReport, hp, if_true]
    exact ⟨edge_beat_last (silent_master hr hw) t true hv hlast,
      edge_beat_last (silent_slave hr hw) t true hv hlast⟩
  | false =>
    simp only [Timeline.beatMonitor, Timeline.lateMonitor, firstReport, hp, Bool.false_eq_true,
      if_false]
    by_cases h1 : t.size - 1 = 0
    · simp only [h1, if_true]
      exact ⟨edge_waitHigh_zero hc.wait t, edge_waitHigh_zero hc.wait t⟩
    · simp only [if_neg h1]
      obtain ⟨n, hn⟩ := Nat.exists_eq_succ_of_ne_zero h1
      have hv : b.ubusData.toBits = t.sampled false n := by
        rw [hd, Transfer.sampled, if_neg Bool.false_ne_true, if_pos (by omega), hn]
      rw [hn]
      exact ⟨edge_beat_more t false hv (by omega), edge_beat_more t false hv (by omega)⟩

theorem view_lastBeat (past : List Transfer) (mem : Mem) {t : Transfer} {i : Fin t.size}
    (hi : i.val = t.size - 1) :
    let v := Timeline.view ⟨past, .beat t i, mem⟩
    v.monitor = Timeline.beatMonitor past t (t.size - 1) ∧
      v.master = .beat (t.handed t.size) (t.size - 1) ∧ v.slave = .dataEdge t.rsp (t.size - 1) := by
  have hnext : i.val + 1 = t.size := by have := t.size_pos; omega
  refine ⟨congrArg (Timeline.beatMonitor past t) hi, ?_, congrArg (SlaveDriver.Loc.dataEdge t.rsp) hi⟩
  change MasterDriver.Loc.beat (t.handed (i + 1)) i = _
  rw [hnext, hi]

theorem active_lastRead {t : Transfer} {i : Fin t.size} (hi : i.val = t.size - 1)
    (hr : t.read = true) (h : Follows cov ⟨past, .beat t i, mem⟩ s) :
    Follows cov ⟨past, .idle (some t), mem⟩ (Testbench.active draw slaveFirst s) := by
  obtain ⟨hc, -⟩ := h.pins
  rw [hi] at hc
  obtain ⟨hmon, hmaster, hslave⟩ := view_lastBeat past mem hi
  obtain ⟨hmm, hsm⟩ := edge_lastBeat past hc
  obtain ⟨hmloc, hmdone, hmnba⟩ := master_last_read (b := s.bus) hr
  obtain ⟨hloc, hdone, hquiet, hz⟩ := slave_last_read hr hc
  rw [← hmaster] at hmloc hmdone hmnba
  rw [← hmon] at hmm hsm
  rw [← hslave] at hloc hdone hquiet hz
  refine shows_active h draw slaveFirst hmloc hmm hsm hloc ?_ rfl ?_ rfl ?_ rfl
    (oneReport_first past t) (reports_first past t)
  · rw [hdone]; rfl
  · rw [hmnba]
    change Quiet (!past.isEmpty || (some t).isSome) _ ∧ _
    rw [Option.isSome_some, Bool.or_true]
    exact ⟨hquiet, fun _ => hz⟩
  · rw [hmdone]
    simp [Timeline.view, Timeline.finished]

theorem active_lastWrite {t : Transfer} {i : Fin t.size} (hi : i.val = t.size - 1)
    (hr : t.read = false) (h : Follows cov ⟨past, .beat t i, mem⟩ s) :
    Follows cov ⟨past, .tail t hr, mem⟩ (Testbench.active draw slaveFirst s) := by
  obtain ⟨hc, -⟩ := h.pins
  rw [hi] at hc
  obtain ⟨hmon, hmaster, hlast⟩ := view_lastBeat past mem hi
  have hslave := (congrArg SlaveDriver.edge hlast).trans (slave_last_write hr)
  obtain ⟨hmm, hsm⟩ := edge_lastBeat past hc
  obtain ⟨hmloc, hmdone, hread, hwrite, hdata, hmdata, hsdata⟩ := master_last_write hr hc
  rw [← hmaster] at hmloc hmdone hread hwrite hdata hmdata hsdata
  rw [← hmon] at hmm hsm
  refine shows_active h draw slaveFirst hmloc hmm hsm (congrArg SlaveDriver.Act.loc hslave) ?_ rfl ?_
    rfl ?_ rfl (oneReport_first past t) (reports_first past t)
  · rw [hslave]; rfl
  · rw [hslave]
    refine ⟨⟨?_, ?_, rfl, hmdata, hsdata⟩, hdata⟩
    · exact hread.trans_ne (by decide)
    · exact hwrite.trans_ne (by decide)
  · rw [hmdone]
    exact List.append_nil _

theorem opening_eq (past : List Transfer) (t : Transfer) :
    opening (!past.isEmpty) t.branch (request t.item) = Timeline.waitMonitor past t 0 := by
  cases past <;> rfl

def Timeline.requested (past : List Transfer) (t : Transfer) (mem : Mem) : View :=
  { Timeline.answered past t mem with
    monitor := Timeline.waitMonitor past t 0
    slave := answer t 0
    pins := Carrying t 0 (answerWait t 0) }

theorem shows_request {tr : Item} (h : Follows cov ⟨past, .address tr, mem⟩ s) :
    Shows cov (Timeline.requested past (Transfer.serve mem tr (draw past.length))
      (respond mem (request tr) (draw past.length)).1) (Testbench.active draw slaveFirst s) := by
  let t := Transfer.serve mem tr (draw past.length)
  have hc : Commanded (!past.isEmpty) t.item s.bus := h.pins
  obtain ⟨hmloc, hmdone, hreleased⟩ := master_edge_address t hc
  obtain ⟨hloc, hdone, hpins⟩ := slave_drive 0 hreleased
  have hmm : MasterMonitor.edge s.bus s.masterMonitor = ⟨Timeline.waitMonitor past t 0, [], []⟩ := by
    rw [h.masterMonitor, ← opening_eq]
    exact masterMonitor_opens hc
  have hsm : SlaveMonitor.edge s.bus s.slaveMonitor =
      ⟨Timeline.waitMonitor past t 0, [request tr], []⟩ := by
    rw [h.slaveMonitor, ← opening_eq]
    exact slaveMonitor_opens hc
  have hrsp : (respond mem (request tr) (draw past.length)).2 = t.rsp := rfl
  have hfifo := h.served.fifo
  have hlen : s.slave.responses.length = past.length := by
    rw [h.served.responses]; exact List.length_map _
  have hreq : (Timeline.waitMonitor past t 0).req? = some (request tr) := by
    rw [Timeline.waitMonitor]; split <;> rfl
  let u := Testbench.drive (MasterDriver.edge s.bus s.masterDriver)
    (Testbench.collect slaveFirst (MasterMonitor.edge s.bus s.masterMonitor)
      (SlaveMonitor.edge s.bus s.slaveMonitor) s)
  have hu : u.requestFifo = [s.requests.length] := by
    simp [u, Testbench.drive, Testbench.collect, hsm, hfifo]
  have hobj : u.objects s.requests.length = request tr := by
    simp [u, Testbench.drive, Testbench.collect, Testbench.storeObject, hsm, hreq]
  have hsd : SlaveDriver.edge s.slave.driver = ⟨.getNextItem, id, false⟩ := by
    rw [h.slaveDriver]; rfl
  have hact : Testbench.active draw slaveFirst s = _ :=
    (congrArg (Testbench.handOff draw · u) hsd).trans (handOff_single hu h.sequence draw)
  rw [hobj, show u.slave.mem = mem from h.mem, show u.slave.responses.length = past.length from hlen,
    hrsp, hdone, show u.bus = (MasterDriver.edge s.bus s.masterDriver).nba s.bus from rfl,
    h.master] at hact
  have hcm : (MasterMonitor.edge s.bus s.masterMonitor).collected = [] := by rw [hmm]
  have hcs : (SlaveMonitor.edge s.bus s.slaveMonitor).collected = [] := by rw [hsm]
  have hpub := ((h.published.collect hcm hcs (.inl rfl) slaveFirst).drive
    (MasterDriver.edge s.bus s.masterDriver)).handOff draw (SlaveDriver.edge s.slave.driver)
  rw [List.append_nil] at hpub
  have hopened : (Timeline.requested past t
      (respond mem (request tr) (draw past.length)).1).opened = past ++ [t] := rfl
  constructor
  · rw [hact]; exact (congrArg MasterDriver.Act.loc (congrArg _ h.master)).trans hmloc
  · rw [hact]; exact congrArg Monitor.Act.loc hmm
  · rw [hact]; exact congrArg Monitor.Act.loc hsm
  · rw [hact]; exact hloc
  · rw [hact]; rfl
  · rw [hact]; rfl
  · rw [hact]; exact hpins
  · have hitems : (Timeline.requested past t (respond mem (request tr) (draw past.length)).1).items =
        past.map (·.item) ++ [tr] := by
      change (past ++ [t]).map (·.item) ++ [] = _
      simp [t, Transfer.serve]
    rw [hact, hitems]
    exact h.driven
  · rw [hact]
    change s.returned ++ (MasterDriver.edge s.bus s.masterDriver).itemDone.toList = _
    rw [show s.masterDriver = .address t.item.val from h.master, hmdone, h.returned]
    exact List.append_nil _
  · rw [hact]
    refine ⟨rfl, ?_, ?_⟩
    · change s.requests ++ (SlaveMonitor.edge s.bus s.slaveMonitor).requests = _
      rw [hsm, h.served.requests, hopened, List.map_append]
      rfl
    · change s.slave.responses ++ [t.rsp] = _
      rw [h.served.responses, hopened, List.map_append]
      rfl
  · exact hpub

theorem active_request {tr : Item} (h : Follows cov ⟨past, .address tr, mem⟩ s) :
    let t := Transfer.serve mem tr (draw past.length)
    let mem' := (respond mem (request tr) (draw past.length)).1
    let s' := Testbench.active draw slaveFirst s
    if hw : 0 < t.waits then Follows cov ⟨past, .wait t ⟨0, hw⟩, mem'⟩ s'
    else Shows cov (Timeline.answered past t mem') s' := by
  intro t mem' s'
  have hv : Shows cov (Timeline.requested past t mem') s' := shows_request draw slaveFirst h
  by_cases hw : 0 < t.waits
  · simp only [dif_pos hw]
    simp only [Timeline.requested, answer, answerWait, if_pos hw] at hv
    exact hv
  · simp only [dif_neg hw]
    have hz : t.waits = 0 := by omega
    simp only [Timeline.requested, answer, answerWait, if_neg hw] at hv
    rw [Timeline.answered, hz]
    exact hv

end Phases

end UbusVip
