import UbusVip.Refinement.Relation

namespace UbusVip

open FourState

variable {b : Bus}

theorem stay_top_of_quiet (hr : b.ubusRead ≠ .one) (hw : b.ubusWrite ≠ .one) :
    MasterMonitor.top b = Monitor.stay .top ∧ SlaveMonitor.top b = Monitor.stay .top := by
  simp [MasterMonitor.top, MasterMonitor.ifWrite, SlaveMonitor.top, hr, hw]

theorem after_of_quiet (hw : b.ubusWrite ≠ .one) (br : Monitor.Branch) :
    MasterMonitor.after br b = Monitor.stay .top := by
  cases br <;> simp [MasterMonitor.after, MasterMonitor.ifWrite, hw]

theorem caseSize_sizeCode {n : Nat} (h : n ∈ [1, 2, 4, 8]) (d : Nat) :
    Monitor.caseSize d (.known (MasterDriver.sizeCode n)) = n := by
  simp only [List.mem_cons, List.not_mem_nil, or_false] at h
  rcases h with rfl | rfl | rfl | rfl <;> simp [Monitor.caseSize, MasterDriver.sizeCode]

theorem request_of_commanded {started : Bool} {tr : Item} (h : Commanded started tr b) (d : Nat) :
    Monitor.request (Monitor.caseSize d b.ubusSize) b = request tr := by
  rw [h.size, caseSize_sizeCode tr.property.cSize]
  simp [Monitor.request, request, h.addr, h.read, h.write]

def lateReports (past : List Transfer) (late : Option Transfer) : List Packet :=
  if past.isEmpty then [] else late.toList.map (Transfer.report false)

theorem captured_last (t : Transfer) :
    { t.captured false (t.size - 1) with
      data := (t.captured false (t.size - 1)).data.set (t.size - 1) 0 } = t.report false := by
  obtain ⟨n, hn⟩ := Nat.exists_eq_add_one_of_ne_zero t.size_pos.ne'
  have hz : t.sampled false n = 0 := by simp [Transfer.sampled, hn]
  simp [Transfer.report, Transfer.captured, hn, ArrayFill.fill_succ, hz]

structure Silent (after : Monitor.Branch → Bus → Monitor.Act) (top : Bus → Monitor.Act)
    (b : Bus) : Prop where
  top : top b = Monitor.stay .top
  after : ∀ br, after br b = Monitor.stay .top

theorem silent_master (hr : b.ubusRead ≠ .one) (hw : b.ubusWrite ≠ .one) :
    Silent MasterMonitor.after MasterMonitor.top b :=
  ⟨(stay_top_of_quiet hr hw).1, after_of_quiet hw⟩

theorem silent_slave (hr : b.ubusRead ≠ .one) (hw : b.ubusWrite ≠ .one) :
    Silent SlaveMonitor.after SlaveMonitor.top b :=
  ⟨(stay_top_of_quiet hr hw).2, fun _ => rfl⟩

variable {after : Monitor.Branch → Bus → Monitor.Act} {top : Bus → Monitor.Act}

theorem edge_lateMonitor (hs : Silent after top b) (past : List Transfer) (late : Option Transfer)
    (hz : late.isSome → b.ubusData = .z) :
    Monitor.edge after top b (Timeline.lateMonitor past late) =
      ⟨.top, [], lateReports past late⟩ := by
  cases late with
  | none =>
    rw [show lateReports past none = [] by simp [lateReports]]
    exact hs.top
  | some t =>
    cases hp : past.isEmpty with
    | true =>
      simp only [Timeline.lateMonitor, lateReports, hp, if_true]
      exact hs.top
    | false =>
      have hd : b.ubusData.toBits = 0 := by rw [hz rfl, LogicVec.toBits_z]
      have hn : ¬t.size - 1 + 1 < (t.report false).size := by
        change ¬t.size - 1 + 1 < t.size
        omega
      simp only [Timeline.lateMonitor, lateReports, hp, Bool.false_eq_true, if_false, Monitor.edge,
        hd, captured_last]
      exact Monitor.samples_done (hs.after _) hn

theorem captured_set (first : Bool) (t : Transfer) (i : Nat) {v : Byte}
    (hv : v = t.sampled first i) :
    { t.captured first i with data := (t.captured first i).data.set i v } =
      t.captured first (i + 1) := by
  rw [hv]; rfl

theorem edge_beat_more (t : Transfer) (first : Bool) {i : Nat}
    (hv : b.ubusData.toBits = t.sampled first i) (hi : i + 1 < t.size) :
    Monitor.edge after top b (.beat t.branch (t.captured first i) i) =
      Monitor.stay (.beat t.branch (t.captured first (i + 1)) (i + 1)) := by
  rw [Monitor.edge, captured_set first t i hv, Monitor.samples_more]
  exact hi

theorem edge_beat_last (hs : Silent after top b) (t : Transfer) (first : Bool) {i : Nat}
    (hv : b.ubusData.toBits = t.sampled first i) (hi : i + 1 = t.size) :
    Monitor.edge after top b (.beat t.branch (t.captured first i) i) =
      ⟨.top, [], [t.report first]⟩ := by
  have hn : ¬i + 1 < (t.captured first (i + 1)).size := by
    change ¬i + 1 < t.size
    omega
  rw [Monitor.edge, captured_set first t i hv, Monitor.samples_done (hs.after _) hn, hi]
  rfl

def opening (started : Bool) (br : Monitor.Branch) (req : Packet) : Monitor.Loc :=
  if started then .waitHigh br req 0 else .waitLow br req 0

theorem waitHigh_rest {started : Bool} (hw : b.ubusWait = restWait started)
    (br : Monitor.Branch) (req : Packet) :
    Monitor.waitHigh after br req 0 b = Monitor.stay (opening started br req) := by
  cases started <;> simp [Monitor.waitHigh, Monitor.waitLow, hw, restWait, opening]

theorem masterMonitor_opens {started : Bool} {t : Transfer} (h : Commanded started t.item b) :
    MasterMonitor.edge b .top = Monitor.stay (opening started t.branch (request t.item)) := by
  change MasterMonitor.top b = _
  have hreq := request_of_commanded h
  cases hr : t.read with
  | true =>
    rw [MasterMonitor.top, if_pos (by simp [h.read, hr]), hreq, waitHigh_rest h.wait,
      t.branch_of_read hr]
  | false =>
    rw [MasterMonitor.top, if_neg (by simp [h.read, hr]), MasterMonitor.ifWrite,
      if_pos (by simp [h.write, hr]), hreq, waitHigh_rest h.wait, t.branch_of_write hr]

theorem slaveMonitor_opens {started : Bool} {t : Transfer} (h : Commanded started t.item b) :
    SlaveMonitor.edge b .top =
      ⟨opening started t.branch (request t.item), [request t.item], []⟩ := by
  change SlaveMonitor.top b = _
  have hcol (br : Monitor.Branch) (req : Packet) :
      SlaveMonitor.collect br req b = ⟨opening started br req, [req], []⟩ := by
    rw [SlaveMonitor.collect, waitHigh_rest h.wait]; rfl
  have hcmd : b.ubusRead = .one ∨ b.ubusWrite = .one := h.command
  rw [SlaveMonitor.top, if_pos hcmd, request_of_commanded h]
  cases hr : t.read with
  | true =>
    simp [hr, SlaveMonitor.collectDelayedReadData, hcol, t.branch_of_read hr]
  | false =>
    simp [hr, SlaveMonitor.collectWriteDataImmediately, hcol, t.branch_of_write hr]

theorem settle_opening_one (hw : b.ubusWait = .one) (started : Bool) (br : Monitor.Branch)
    (req : Packet) :
    Monitor.settle after b (opening started br req) = Monitor.stay (opening started br req) := by
  cases started <;> simp [opening, Monitor.settle, Monitor.waitLow, hw]

theorem settle_waitLow_zero (hw : b.ubusWait = .zero) (t : Transfer) :
    Monitor.settle after b (.waitLow t.branch (request t.item) 0) =
      Monitor.stay (.beat t.branch (t.captured true 0) 0) :=
  Monitor.waitLow_zero 0 hw t.size_pos

theorem edge_waitHigh_zero (hw : b.ubusWait = .zero) (t : Transfer) :
    Monitor.edge after top b (.waitHigh t.branch (request t.item) t.waits) =
      Monitor.stay (.beat t.branch (t.captured false 0) 0) :=
  Monitor.waitHigh_zero (t.waits + 1) hw t.size_pos

theorem edge_waitHigh_one (hw : b.ubusWait = .one) (br : Monitor.Branch) (req : Packet) (n : Nat) :
    Monitor.edge after top b (.waitHigh br req n) = Monitor.stay (.waitHigh br req (n + 1)) :=
  Monitor.waitHigh_one br req (n + 1) hw

end UbusVip
