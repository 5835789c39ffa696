import UbusVip.Guarantees.Delivery

namespace UbusVip

def SlaveDriver.Loc.rsp? : SlaveDriver.Loc → Option Packet
  | .getNextItem => none
  | .waitEdge rsp _ => some rsp
  | .dataEdge rsp _ => some rsp
  | .tailEdge rsp => some rsp

structure Handshake (s : Testbench) : Prop where
  fifo : s.requestFifo = []
  answered : s.slave.responses.length = s.requests.length
  opened : s.requests.length ≤ s.driven.length ∧ s.driven.length ≤ s.requests.length + 1
  finishing : ∀ rsp, s.slave.sequence = .finishItem rsp ↔ s.slave.driver.rsp? = some rsp
  current : ∀ rsp, s.slave.driver.rsp? = some rsp → s.slave.responses.getLast? = some rsp ∧
    ∃ tr, s.driven[s.requests.length - 1]? = some tr ∧
      rsp.size = tr.val.size ∧ rsp.read = tr.val.read ∧ rsp.write = tr.val.write
  waits : (∃ tr, s.masterDriver = .waitLow tr) ↔ ∃ rsp i, s.slave.driver = .waitEdge rsp i
  beats : ∀ i, (∃ tr, s.masterDriver = .beat tr i) ↔ ∃ rsp, s.slave.driver = .dataEdge rsp i

namespace Timeline

variable {tl : Timeline}

theorem finishing (tl : Timeline) (rsp : Packet) :
    tl.sequenceLoc = .finishItem rsp ↔ tl.slaveLoc.rsp? = some rsp := by
  have hrsp (r : Packet) : SlaveSequence.Loc.finishItem r = .finishItem rsp ↔ some r = some rsp := by
    rw [SlaveSequence.Loc.finishItem.injEq, Option.some_inj]
  obtain ⟨past, phase, mem⟩ := tl
  cases phase with
  | idle late | command late tr =>
    cases late with
    | none => exact iff_of_false nofun nofun
    | some t => exact hrsp t.rsp
  | address tr | tail t hr => exact iff_of_false nofun nofun
  | wait t i | beat t i => exact hrsp t.rsp

theorem opened_of_rsp? {rsp : Packet} (h : tl.slaveLoc.rsp? = some rsp) :
    ∃ ts t, tl.opened = ts ++ [t] ∧ t.rsp = rsp := by
  obtain ⟨past, phase, mem⟩ := tl
  cases phase with
  | idle late | command late tr =>
    cases late with
    | none => cases h
    | some t => exact ⟨past, t, rfl, Option.some_inj.mp h⟩
  | address tr | tail t hr => cases h
  | wait t i | beat t i => exact ⟨past, t, rfl, Option.some_inj.mp h⟩

theorem slaveLoc_late (late : Option Transfer) : (∀ rsp i, lateSlave late ≠ .waitEdge rsp i) ∧
    ∀ rsp i, lateSlave late ≠ .dataEdge rsp i := by
  cases late <;> exact ⟨nofun, nofun⟩

theorem waits_together (tl : Timeline) :
    (∃ tr, tl.masterLoc = .waitLow tr) ↔ ∃ rsp i, tl.slaveLoc = .waitEdge rsp i := by
  obtain ⟨past, phase, mem⟩ := tl
  cases phase with
  | idle late | command late tr =>
    exact iff_of_false nofun fun ⟨_, _, h⟩ => (slaveLoc_late late).1 _ _ h
  | address tr | tail t hr | beat t i => exact iff_of_false nofun nofun
  | wait t i => exact iff_of_true ⟨_, rfl⟩ ⟨_, _, rfl⟩

theorem beats_together (tl : Timeline) (i : Nat) :
    (∃ tr, tl.masterLoc = .beat tr i) ↔ ∃ rsp, tl.slaveLoc = .dataEdge rsp i := by
  obtain ⟨past, phase, mem⟩ := tl
  cases phase with
  | idle late | command late tr =>
    exact iff_of_false nofun fun ⟨_, h⟩ => (slaveLoc_late late).2 _ _ h
  | address tr | tail t hr | wait t j => exact iff_of_false nofun nofun
  | beat t j =>
    constructor
    · rintro ⟨_, ⟨⟩⟩
      exact ⟨_, rfl⟩
    · rintro ⟨_, ⟨⟩⟩
      exact ⟨_, rfl⟩

theorem length_pending_le (tl : Timeline) : tl.pending.length ≤ 1 := by
  obtain ⟨past, phase, mem⟩ := tl
  cases phase <;> simp [pending]

end Timeline

theorem Follows.handshake {cov : CoveredBins} {tl : Timeline} {s : Testbench}
    (h : Follows cov tl s) : Handshake s where
  fifo := h.served.fifo
  answered := by rw [h.served.responses, h.served.requests, List.length_map, List.length_map]
  opened := by
    have hle := tl.length_pending_le
    have hdriven : s.driven = tl.opened.map (·.item) ++ tl.pending := h.driven
    have hrequests : s.requests = tl.opened.map (request ·.item) := h.served.requests
    rw [hdriven, hrequests, List.length_append, List.length_map, List.length_map]
    omega
  finishing rsp := by
    rw [h.sequence, h.slaveDriver]
    exact tl.finishing rsp
  current rsp hrsp := by
    rw [h.slaveDriver] at hrsp
    obtain ⟨ts, t, hopened, rfl⟩ := Timeline.opened_of_rsp? hrsp
    have hresponses : s.slave.responses = tl.opened.map (·.rsp) := h.served.responses
    have hrequests : s.requests = tl.opened.map (request ·.item) := h.served.requests
    have hdriven : s.driven = tl.opened.map (·.item) ++ tl.pending := h.driven
    rw [hopened] at hresponses hrequests hdriven
    refine ⟨by simp [hresponses], t.item, ?_, t.rsp_size, t.rsp_read, t.rsp_write⟩
    rw [hdriven, hrequests]
    simp
  waits := by
    rw [h.master, h.slaveDriver]
    exact tl.waits_together
  beats i := by
    rw [h.master, h.slaveDriver]
    exact tl.beats_together i

theorem handshake_kept (env : Env) (k : Nat) : Handshake (Testbench.run env k) :=
  (run_follows env k).handshake

end UbusVip
