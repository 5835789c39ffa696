import UbusVip.Guarantees.Delivery
import UbusVip.WireDecoder

namespace UbusVip

open FourState

def wireTransfer (tr : Item) (rsp : Packet) : WireTransfer :=
  ⟨.known tr.val.addr, tr.val.read, (if tr.val.read then rsp.data else tr.val.data).map .known⟩

namespace Transfer

variable (t : Transfer)

def bytes : List Byte := if t.read then t.rsp.data else t.item.val.data

theorem bytes_length : t.bytes.length = t.size := by
  rw [bytes]
  split
  · exact t.rsp_data
  · exact t.item.data_length

theorem bytes_get {i : Nat} (hi : i < t.size) : t.bytes[i]? = some (t.byte i) := by
  have hlen : i < t.bytes.length := by rw [t.bytes_length]; exact hi
  have hbyte : t.byte i = t.bytes.getD i 0 := by
    simp only [byte, bytes, Packet.byte]
    split <;> rfl
  rw [hbyte, List.getD_eq_getElem?_getD, List.getElem?_eq_getElem hlen]
  rfl

def wirePart (i : Nat) : WireTransfer :=
  ⟨.known t.item.val.addr, t.read, (t.bytes.take i).map .known⟩

def wire : WireTransfer := wireTransfer t.item t.rsp

theorem wirePart_zero : t.wirePart 0 = ⟨.known t.item.val.addr, t.read, []⟩ := rfl

theorem wirePart_succ {i : Nat} (hi : i < t.size) :
    t.wirePart (i + 1) =
      { t.wirePart i with data := (t.wirePart i).data ++ [.known (t.byte i)] } := by
  simp [wirePart, List.take_add_one, t.bytes_get hi]

theorem wirePart_length {i : Nat} (hi : i ≤ t.size) : (t.wirePart i).data.length = i := by
  simp [wirePart, t.bytes_length, hi]

theorem wirePart_size : t.wirePart t.size = t.wire := by
  rw [wirePart, List.take_of_length_le t.bytes_length.le]
  rfl

end Transfer

theorem two_pow_sizeCode {n : Nat} (h : n ∈ [1, 2, 4, 8]) :
    2 ^ (MasterDriver.sizeCode n).toNat = n := by
  simp only [List.mem_cons, List.not_mem_nil, or_false] at h
  rcases h with rfl | rfl | rfl | rfl <;> decide

namespace Timeline

def decoder (tl : Timeline) : WireDecoder :=
  match tl.phase with
  | .idle late => ⟨(tl.past ++ late.toList).map Transfer.wire, none⟩
  | .command late _ => ⟨(tl.past ++ late.toList).map Transfer.wire, none⟩
  | .address _ => ⟨tl.past.map Transfer.wire, none⟩
  | .wait t _ => ⟨tl.past.map Transfer.wire, some (t.wirePart 0, t.size)⟩
  | .beat t i => ⟨tl.past.map Transfer.wire, some (t.wirePart i, t.size)⟩
  | .tail t _ => ⟨(tl.past ++ [t]).map Transfer.wire, none⟩

end Timeline

variable {b : Bus} {past : List Transfer} {mem : SlaveSequence.Mem}

theorem sample_quiet {started : Bool} (h : Quiet started b) (ts : List WireTransfer) :
    WireDecoder.sample ⟨ts, none⟩ b = some ⟨ts, none⟩ := by
  simp only [WireDecoder.sample, if_neg h.not_command, if_neg h.wait_ne]

theorem sample_command {started : Bool} {t : Transfer} (h : Commanded started t.item b)
    (ts : List WireTransfer) :
    WireDecoder.sample ⟨ts, none⟩ b = some ⟨ts, some (t.wirePart 0, t.size)⟩ := by
  have hlegal : ¬(b.ubusRead = .one ∧ b.ubusWrite = .one ∨ b.ubusWait = .zero) :=
    not_or.mpr ⟨h.exclusive, h.wait_ne⟩
  simp only [WireDecoder.sample, if_pos h.command, WireDecoder.openTransfer, if_neg hlegal]
  rw [h.addr, h.read, h.size, LogicVec.toBits_known, two_pow_sizeCode t.item.property.cSize,
    Logic.toBool_ofBool, t.wirePart_zero]
  rfl

theorem sample_wait {t : Transfer} (h : Carrying t 0 .one b) (d : WireDecoder) :
    WireDecoder.sample d b = some d := by
  have hw : b.ubusWait ≠ .zero := by rw [h.wait]; decide
  simp only [WireDecoder.sample]
  split <;> simp only [if_neg h.not_command, if_neg hw]

theorem sample_beat {t : Transfer} {i : Nat} (hi : i < t.size) (h : Carrying t i .zero b)
    (hbip : b.ubusBip = lastBip t i) (ts : List WireTransfer) :
    WireDecoder.sample ⟨ts, some (t.wirePart i, t.size)⟩ b =
      some (if i + 1 < t.size then ⟨ts, some (t.wirePart (i + 1), t.size)⟩
        else ⟨ts ++ [t.wire], none⟩) := by
  have hlen : ((t.wirePart i).data ++ [LogicVec.known (t.byte i)]).length = i + 1 := by
    rw [List.length_append, t.wirePart_length hi.le]
    rfl
  simp only [WireDecoder.sample, if_neg h.not_command, if_pos h.wait, WireDecoder.takeByte, h.data]
  rw [← t.wirePart_succ hi, hlen]
  by_cases hlast : i + 1 < t.size
  · have hone : b.ubusBip = .one := by rw [hbip, lastBip, if_neg (by omega)]
    rw [if_pos hlast, if_pos hone, if_pos hlast]
  · have hzero : b.ubusBip = .zero := by rw [hbip, lastBip, if_pos (by omega)]
    have hsize : i + 1 = t.size := by omega
    rw [if_neg hlast, if_pos hzero, if_neg hlast, hsize, t.wirePart_size]

theorem sample_advance (draw : Nat → SlaveSequence.Draw) {tl : Timeline} (h : tl.Pins b) :
    tl.decoder.sample b = some (tl.advance draw).decoder := by
  obtain ⟨past, phase, mem⟩ := tl
  cases phase with
  | idle late =>
    simpa [Timeline.decoder, Timeline.advance] using sample_quiet h.1 _
  | command late tr =>
    simpa [Timeline.decoder, Timeline.advance] using sample_quiet h.1 _
  | address tr =>
    let t := Transfer.serve mem tr (draw past.length)
    refine (sample_command (t := t) h _).trans ?_
    simp only [Timeline.advance]
    split <;> rfl
  | wait t i =>
    refine (sample_wait h _).trans ?_
    simp only [Timeline.advance]
    split <;> rfl
  | beat t i =>
    refine (sample_beat i.isLt h.1 h.2 _).trans ?_
    simp only [Timeline.advance]
    by_cases hi : i + 1 < t.size
    · simp only [if_pos hi, dif_pos hi]
      rfl
    · simp only [if_neg hi, dif_neg hi]
      split <;> simp [Timeline.decoder]
  | tail t hr =>
    simpa [Timeline.decoder, Timeline.advance] using sample_quiet h.1 _

theorem decoder_accept (tl : Timeline) (offer : Option Item) : (tl.accept offer).decoder = tl.decoder := by
  obtain ⟨past, phase, mem⟩ := tl
  cases phase <;> cases offer <;> rfl

def pinsBefore (env : Env) (k : Nat) : List Bus :=
  (List.range k).map fun e => (Testbench.run env e).bus

theorem decode_run (env : Env) (k : Nat) :
    WireDecoder.decode (pinsBefore env k) = some (Timeline.run env k).decoder := by
  induction k with
  | zero => rfl
  | succ k ih =>
    have hpins : pinsBefore env (k + 1) = pinsBefore env k ++ [(Testbench.run env k).bus] := by
      simp [pinsBefore, List.range_succ]
    rw [hpins, WireDecoder.decode_concat, ih, Option.bind_some,
      sample_advance env.draw (run_follows env k).pins,
      show Timeline.run env (k + 1) =
        ((Timeline.run env k).advance env.draw).accept (env.offer k) from rfl, decoder_accept]

def wireTransfers (items : List Item) (s : Testbench) : List WireTransfer :=
  items.zipWith wireTransfer s.slave.responses

theorem zipWith_maps {α β γ δ : Type} (f : β → γ → δ) (g : α → β) (h : α → γ) (l : List α)
    (r : List β) : List.zipWith f (l.map g ++ r) (l.map h) = l.map fun a => f (g a) (h a) := by
  induction l with
  | nil => exact List.zipWith_nil_right
  | cons a l ih => simpa using ih

theorem wireTransfers_eq (env : Env) (k : Nat) {items : List Item}
    (h : (Testbench.run env k).driven <+: items) :
    wireTransfers items (Testbench.run env k) = (Timeline.run env k).opened.map Transfer.wire := by
  have hf := run_follows env k
  obtain ⟨rest, rfl⟩ := h
  rw [wireTransfers, hf.driven, hf.served.responses]
  change List.zipWith wireTransfer (((Timeline.run env k).opened.map Transfer.item ++
    (Timeline.run env k).pending) ++ rest) _ = _
  rw [List.append_assoc]
  exact zipWith_maps wireTransfer Transfer.item Transfer.rsp _ _

theorem closed_opened (tl : Timeline) : tl.decoder.closed <+: tl.opened.map Transfer.wire := by
  obtain ⟨past, phase, mem⟩ := tl
  cases phase with
  | idle late | command late tr | address tr | tail t hr => exact List.prefix_rfl
  | wait t i | beat t i => exact (List.prefix_append past [t]).map _

theorem decoder_idle {cov : CoveredBins} {tl : Timeline} {s : Testbench} (h : Follows cov tl s)
    (hidle : s.masterDriver = .getNextItem) :
    tl.decoder = ⟨tl.opened.map Transfer.wire, none⟩ ∧ tl.pending = [] := by
  have hm := h.master.symm.trans hidle
  obtain ⟨past, phase, mem⟩ := tl
  cases phase with
  | idle late => exact ⟨rfl, rfl⟩
  | command late tr | address tr | wait t i | beat t i | tail t hr => cases hm

theorem decode_idle (env : Env) (k : Nat)
    (hidle : (Testbench.run env k).masterDriver = .getNextItem) :
    WireDecoder.decode (pinsBefore env k) =
        some ⟨wireTransfers (Testbench.run env k).driven (Testbench.run env k), none⟩ ∧
      (Testbench.run env k).slave.responses.length = (Testbench.run env k).driven.length := by
  have h := run_follows env k
  obtain ⟨hdec, hpend⟩ := decoder_idle h hidle
  rw [decode_run, hdec, wireTransfers_eq env k List.prefix_rfl, h.driven, h.served.responses]
  simp [Timeline.view, Timeline.items, hpend]

theorem pins_decode (draw : Nat → SlaveSequence.Draw) (slaveFirst : Nat → Bool)
    (script : List (Nat × Item)) :
    let s := fun k => (ItemFeed.run draw slaveFirst script k).tb
    let pins := fun k => (List.range k).map fun e => (s e).bus
    let given := ItemFeed.given script
    (∀ k, ∃ d, WireDecoder.decode (pins k) = some d ∧ d.closed <+: wireTransfers given (s k)) ∧
      ∃ n, ∀ m, n ≤ m → (s m).driven = given ∧ (s m).slave.responses.length = given.length ∧
        WireDecoder.decode (pins m) = some ⟨wireTransfers given (s m), none⟩ := by
  intro s pins given
  let env := ItemFeed.env draw slaveFirst script
  have hs (k : Nat) : s k = Testbench.run env k := ItemFeed.run_tb draw slaveFirst script k
  simp only [pins, hs]
  constructor
  · intro k
    have hgiven : (Testbench.run env k).driven <+: given := by
      rw [← hs]
      exact ⟨_, ItemFeed.run_conserves draw slaveFirst script k⟩
    refine ⟨_, decode_run env k, ?_⟩
    rw [wireTransfers_eq env k hgiven]
    exact closed_opened _
  · obtain ⟨n, hdriven, hoffer⟩ := ItemFeed.exists_drained draw slaveFirst script
    obtain ⟨n', hn'⟩ := finite_run hoffer
    refine ⟨n', fun m hm => ?_⟩
    obtain ⟨hidle, hsame⟩ := hn' m hm
    have hgiven : (Testbench.run env m).driven = given := hsame.trans hdriven
    obtain ⟨hdecode, hlen⟩ := decode_idle env m hidle
    rw [hgiven] at hdecode hlen
    exact ⟨hgiven, hlen, hdecode⟩

theorem pins_decode_backToBack :
    let s := fun k => (ItemFeed.run (fun _ => .fixed 1) (fun _ => false)
      [(0, wordWrite), (0, wordRead)] k).tb
    ∃ m d, WireDecoder.decode ((List.range m).map fun e => (s e).bus) = some d ∧
      d.closed.length = 2 := by
  intro s
  obtain ⟨-, n, hn⟩ := pins_decode (fun _ => .fixed 1) (fun _ => false)
    [(0, wordWrite), (0, wordRead)]
  obtain ⟨-, hlen, hdecode⟩ := hn n le_rfl
  refine ⟨n, _, hdecode, ?_⟩
  rw [wireTransfers, List.length_zipWith, hlen]
  rfl

end UbusVip
