import UbusVip.ItemFeed
import UbusVip.Refinement.Run

namespace UbusVip

structure Header where
  addr : BitVec 16
  read : Bool
  write : Bool
  size : Nat
deriving DecidableEq, Repr

def Packet.header (p : Packet) : Header := ⟨p.addr, p.read, p.write, p.size⟩

def headers (ps : List Packet) : List Header := ps.map (·.header)

def itemHeaders (items : List Item) : List Header := items.map (·.val.header)

theorem reportsFrom_headers (first : Bool) (ts : List Transfer) :
    headers (reportsFrom first ts) = itemHeaders (ts.map (·.item)) := by
  induction ts generalizing first with
  | nil => rfl
  | cons t ts ih => exact congrArg (t.item.val.header :: ·) (ih false)

theorem reports_headers (ts : List Transfer) :
    headers (reports ts) = itemHeaders (ts.map (·.item)) := reportsFrom_headers true ts

theorem reportsFrom_length (first : Bool) (ts : List Transfer) :
    (reportsFrom first ts).length = ts.length := by
  induction ts generalizing first with
  | nil => rfl
  | cons t ts ih => exact congrArg (· + 1) (ih false)

theorem Transfer.handed_header (t : Transfer) (i : Nat) : (t.handed i).header = t.item.val.header := by
  rw [Transfer.handed]
  split <;> rfl

theorem handed_headers (ts : List Transfer) :
    headers (ts.map fun t => t.handed t.size) = itemHeaders (ts.map (·.item)) := by
  simp [headers, itemHeaders, Transfer.handed_header]

theorem request_headers (ts : List Transfer) :
    headers (ts.map (request ·.item)) = itemHeaders (ts.map (·.item)) := by
  simp [headers, itemHeaders, request, Packet.header]

namespace Testbench

structure Grows (s t : Testbench) : Prop where
  requests : s.requests <+: t.requests
  returned : s.returned <+: t.returned
  masterCollected : s.masterCollected <+: t.masterCollected
  slaveCollected : s.slaveCollected <+: t.slaveCollected
  driven : s.driven <+: t.driven

theorem Grows.refl (s : Testbench) : Grows s s :=
  ⟨List.prefix_rfl, List.prefix_rfl, List.prefix_rfl, List.prefix_rfl, List.prefix_rfl⟩

theorem Grows.trans {s t u : Testbench} (h : Grows s t) (g : Grows t u) : Grows s u where
  requests := h.requests.trans g.requests
  returned := h.returned.trans g.returned
  masterCollected := h.masterCollected.trans g.masterCollected
  slaveCollected := h.slaveCollected.trans g.slaveCollected
  driven := h.driven.trans g.driven

theorem grows_collect (slaveFirst : Bool) (mm sm : Monitor.Act) (s : Testbench) :
    Grows s (collect slaveFirst mm sm s) where
  requests := List.prefix_append _ _
  returned := List.prefix_rfl
  masterCollected := List.prefix_append _ _
  slaveCollected := List.prefix_append _ _
  driven := List.prefix_rfl

theorem grows_drive (md : MasterDriver.Act) (s : Testbench) : Grows s (drive md s) where
  requests := List.prefix_rfl
  returned := List.prefix_append _ _
  masterCollected := List.prefix_rfl
  slaveCollected := List.prefix_rfl
  driven := List.prefix_rfl

theorem grows_handOff (draw : Nat → SlaveSequence.Draw) (sd : SlaveDriver.Act) (s : Testbench) :
    Grows s (handOff draw sd s) :=
  ⟨List.prefix_rfl, List.prefix_rfl, List.prefix_rfl, List.prefix_rfl, List.prefix_rfl⟩

theorem grows_accept (offer : Option Item) (s : Testbench) : Grows s (accept offer s) := by
  rcases s.accept_cases offer with h | ⟨tr, -, h⟩
  · rw [h]
    exact .refl s
  · rw [h]
    exact { Grows.refl s with driven := List.prefix_append _ _ }

theorem grows_edge (draw : Nat → SlaveSequence.Draw) (slaveFirst : Bool) (s : Testbench) :
    Grows s (edge draw slaveFirst s) :=
  ((grows_collect ..).trans (grows_drive ..)).trans (grows_handOff ..)
    |>.trans (grows_collect ..) |>.trans (grows_drive ..)

theorem grows_step (env : Env) (k : Nat) (s : Testbench) : Grows s (step env k s) :=
  (grows_edge env.draw (env.slaveFirst k) s).trans (grows_accept ..)

theorem run_grows (env : Env) {i j : Nat} (h : i ≤ j) : Grows (run env i) (run env j) :=
  Clocked.run_monotone Grows.refl (fun _ _ _ => Grows.trans) (grows_step env) h

end Testbench

theorem itemHeaders_mono {tl : Timeline} {ts : List Transfer} (h : ts <+: tl.opened) :
    itemHeaders (ts.map (·.item)) <+: itemHeaders tl.items := by
  have hopen : ts.map (·.item) <+: tl.items := (h.map _).trans (List.prefix_append _ _)
  exact hopen.map _

structure InOrder (items : List Item) (s : Testbench) : Prop where
  requests : headers s.requests <+: itemHeaders items
  returned : headers s.returned <+: itemHeaders items
  masterCollected : headers s.masterCollected <+: itemHeaders items
  slaveCollected : headers s.slaveCollected <+: itemHeaders items

theorem InOrder.mono {items items' : List Item} {s : Testbench} (h : InOrder items s)
    (hle : items <+: items') : InOrder items' s where
  requests := h.requests.trans (hle.map _)
  returned := h.returned.trans (hle.map _)
  masterCollected := h.masterCollected.trans (hle.map _)
  slaveCollected := h.slaveCollected.trans (hle.map _)

theorem run_inOrder (env : Env) (k : Nat) :
    InOrder (Testbench.run env k).driven (Testbench.run env k) := by
  have h := run_follows env k
  have hreported := itemHeaders_mono (Timeline.run env k).reported_prefix_opened
  have hfinished := itemHeaders_mono (Timeline.run env k).finished_prefix_opened
  constructor
  · rw [h.served.requests, request_headers, h.driven]
    exact itemHeaders_mono List.prefix_rfl
  · rw [h.returned, handed_headers, h.driven]
    exact hfinished
  · rw [h.published.masterCollected, reports_headers, h.driven]
    exact hreported
  · rw [h.published.slaveCollected, reports_headers, h.driven]
    exact hreported

theorem run_published (env : Env) (k : Nat) :
    (Testbench.run env k).returned.length ≤ (Testbench.run env (k + 1)).masterCollected.length ∧
    (Testbench.run env k).returned.length ≤ (Testbench.run env (k + 1)).slaveCollected.length := by
  have h := run_follows env k
  have g := run_follows env (k + 1)
  have hlen := (Timeline.finished_prefix_reported env k).length_le
  rw [h.returned, g.published.masterCollected, g.published.slaveCollected, List.length_map]
  exact ⟨hlen.trans_eq (reportsFrom_length true _).symm,
    hlen.trans_eq (reportsFrom_length true _).symm⟩

structure Settled (items : List Item) (s : Testbench) : Prop where
  requests : itemHeaders items <+: headers s.requests
  returned : itemHeaders items <+: headers s.returned
  masterCollected : itemHeaders items <+: headers s.masterCollected
  slaveCollected : itemHeaders items <+: headers s.slaveCollected

theorem Settled.mono {items : List Item} {s t : Testbench} (h : Settled items s)
    (g : Testbench.Grows s t) : Settled items t where
  requests := h.requests.trans (g.requests.map _)
  returned := h.returned.trans (g.returned.map _)
  masterCollected := h.masterCollected.trans (g.masterCollected.map _)
  slaveCollected := h.slaveCollected.trans (g.slaveCollected.map _)

theorem run_settles (env : Env) (k : Nat) :
    ∃ n, ∀ m, n ≤ m → Settled (Testbench.run env k).driven (Testbench.run env m) := by
  let n := k + (Timeline.run env k).busy env.draw
  have hn := run_follows env (n + 1)
  have hitems := Timeline.finished_at env k
  have hfin := Timeline.finished_prefix_reported env n
  have hcover {ts : List Transfer} (h : (Timeline.run env n).finished <+: ts) :
      itemHeaders (Testbench.run env k).driven <+: itemHeaders (ts.map (·.item)) := by
    rw [(run_follows env k).driven]
    change itemHeaders (Timeline.run env k).items <+: _
    rw [← hitems]
    exact (h.map _).map _
  have hopened := hfin.trans (Timeline.run env (n + 1)).reported_prefix_opened
  have hgrow := Testbench.run_grows env (Nat.le_succ n)
  refine ⟨n + 1, fun m hm => Settled.mono ?_ (Testbench.run_grows env hm)⟩
  constructor
  · rw [hn.served.requests, request_headers]
    exact hcover hopened
  · have hret : itemHeaders (Testbench.run env k).driven <+:
        headers (Testbench.run env n).returned := by
      rw [(run_follows env n).returned, handed_headers]
      exact hcover List.prefix_rfl
    exact hret.trans (hgrow.returned.map _)
  · rw [hn.published.masterCollected, reports_headers]
    exact hcover hfin
  · rw [hn.published.slaveCollected, reports_headers]
    exact hcover hfin

theorem finite_run {env : Env} {k : Nat} (h : ∀ j, k ≤ j → env.offer j = none) :
    ∃ n, ∀ m, n ≤ m → (Testbench.run env m).masterDriver = .getNextItem ∧
      (Testbench.run env m).driven = (Testbench.run env k).driven := by
  refine ⟨k + (Timeline.run env k).busy env.draw, ?_⟩
  intro m hm
  obtain ⟨j, rfl⟩ := Nat.exists_eq_add_of_le (show k ≤ m by omega)
  obtain ⟨hbusy, hitems⟩ := Timeline.run_no_offer h j
  have hm' := run_follows env (k + j)
  refine ⟨(hm'.getNextItem_iff env.draw).mpr (by omega), ?_⟩
  rw [hm'.driven, (run_follows env k).driven]
  exact hitems

structure Complete (items : List Item) (s : Testbench) : Prop where
  requests : headers s.requests = itemHeaders items
  returned : headers s.returned = itemHeaders items
  masterCollected : headers s.masterCollected = itemHeaders items
  slaveCollected : headers s.slaveCollected = itemHeaders items

theorem Settled.complete {s : Testbench} (h : Settled s.driven s) (g : InOrder s.driven s) :
    Complete s.driven s where
  requests := g.requests.eq_of_length_le h.requests.length_le
  returned := g.returned.eq_of_length_le h.returned.length_le
  masterCollected := g.masterCollected.eq_of_length_le h.masterCollected.length_le
  slaveCollected := g.slaveCollected.eq_of_length_le h.slaveCollected.length_le

theorem finite_complete {env : Env} {k : Nat} (h : ∀ j, k ≤ j → env.offer j = none) :
    ∃ n, ∀ m, n ≤ m → Complete (Testbench.run env k).driven (Testbench.run env m) := by
  obtain ⟨n, hn⟩ := finite_run h
  obtain ⟨n', hn'⟩ := run_settles env k
  refine ⟨max n n', ?_⟩
  intro m hm
  have hdriven := (hn m (by omega)).2
  have hsettled := hn' m (by omega)
  rw [← hdriven] at hsettled ⊢
  exact hsettled.complete (run_inOrder env m)

namespace ItemFeed

variable {draw : Nat → SlaveSequence.Draw} {slaveFirst : Nat → Bool} {script : List (Nat × Item)}
  {k : Nat}

section Offers

variable (draw : Nat → SlaveSequence.Draw) (slaveFirst : Nat → Bool)

def offer (k : Nat) (c : ItemFeed) : Option Item :=
  if (edge draw slaveFirst k c).masterDriver = .getNextItem then
    match c.waiting with
    | (0, tr) :: _ => some tr
    | _ => none
  else none

theorem step_tb (k : Nat) (c : ItemFeed) :
    (step draw slaveFirst k c).tb = (edge draw slaveFirst k c).accept (offer draw slaveFirst k c) := by
  rw [step, offer]
  split
  · match c.waiting with
    | [] | (gap + 1, tr) :: rest => exact (Testbench.accept_none _).symm
    | (0, tr) :: rest => rfl
  · exact (Testbench.accept_none _).symm

variable (script : List (Nat × Item))

theorem run_succ (k : Nat) :
    run draw slaveFirst script (k + 1) = step draw slaveFirst k (run draw slaveFirst script k) := rfl

def env : Env := ⟨fun k => offer draw slaveFirst k (run draw slaveFirst script k), draw, slaveFirst⟩

theorem run_tb (k : Nat) :
    (run draw slaveFirst script k).tb = Testbench.run (env draw slaveFirst script) k := by
  induction k with
  | zero => rfl
  | succ k ih =>
    rw [run_succ, step_tb, edge, ih]
    rfl

end Offers

theorem run_follows (k : Nat) : Follows UbusCoverage.init
    (Timeline.run (env draw slaveFirst script) k) (run draw slaveFirst script k).tb := by
  rw [run_tb]
  exact UbusVip.run_follows _ k

theorem step_blocked {c : ItemFeed} (h : (edge draw slaveFirst k c).masterDriver ≠ .getNextItem) :
    step draw slaveFirst k c = ⟨edge draw slaveFirst k c, c.waiting⟩ := if_neg h

theorem step_idle {c : ItemFeed} (h : (edge draw slaveFirst k c).masterDriver = .getNextItem) :
    step draw slaveFirst k c = give (edge draw slaveFirst k c) c.waiting := if_pos h

theorem step_conserves (k : Nat) (c : ItemFeed) :
    (step draw slaveFirst k c).tb.driven ++ given (step draw slaveFirst k c).waiting =
      c.tb.driven ++ given c.waiting := by
  by_cases h : (edge draw slaveFirst k c).masterDriver = .getNextItem
  · rw [step_idle h]
    match c.waiting with
    | [] | (gap + 1, tr) :: rest => rfl
    | (0, tr) :: rest =>
      have hdriven : ((edge draw slaveFirst k c).accept (some tr)).driven = c.tb.driven ++ [tr] := by
        rw [Testbench.accept_idle h]
        rfl
      rw [give, hdriven, List.append_assoc]
      rfl
  · rw [step_blocked h]
    rfl

theorem run_conserves (draw : Nat → SlaveSequence.Draw) (slaveFirst : Nat → Bool)
    (script : List (Nat × Item)) (k : Nat) :
    (run draw slaveFirst script k).tb.driven ++ given (run draw slaveFirst script k).waiting =
      given script :=
  Clocked.run_invariant (P := fun c => c.tb.driven ++ given c.waiting = given script) rfl
    (fun k c h => (step_conserves k c).trans h) k

-- each edge brings the head of the queue nearer: the transfer in progress, then the gap
theorem head_taken {tl : Timeline} {gap n : Nat} {tr : Item} {rest : List (Nat × Item)}
    (h : Follows UbusCoverage.init tl (run draw slaveFirst script k).tb)
    (hw : (run draw slaveFirst script k).waiting = (gap, tr) :: rest)
    (hn : gap + tl.busy draw ≤ n) : ∃ j, (run draw slaveFirst script j).waiting = rest := by
  induction n generalizing k gap tl with
  | zero =>
    have hedge : Follows UbusCoverage.init (tl.advance draw)
        (edge draw slaveFirst k (run draw slaveFirst script k)) := edge_follows h
    have hidle := (hedge.getNextItem_iff draw).mpr (by rw [Timeline.busy_advance_sub]; omega)
    obtain rfl : gap = 0 := by omega
    refine ⟨k + 1, ?_⟩
    rw [run_succ, step_idle hidle, hw]
    rfl
  | succ n ih =>
    have hedge : Follows UbusCoverage.init (tl.advance draw)
        (edge draw slaveFirst k (run draw slaveFirst script k)) := edge_follows h
    have hbusy := Timeline.busy_advance_sub draw tl
    by_cases hidle : (edge draw slaveFirst k (run draw slaveFirst script k)).masterDriver = .getNextItem
    · have hstep : run draw slaveFirst script (k + 1) =
          give (edge draw slaveFirst k (run draw slaveFirst script k)) ((gap, tr) :: rest) :=
        hw ▸ step_idle hidle
      cases gap with
      | zero => exact ⟨k + 1, by rw [hstep]; rfl⟩
      | succ gap =>
        rw [give] at hstep
        exact ih (by rw [hstep]; exact hedge) (by rw [hstep]) (by omega)
    · have hstep : run draw slaveFirst script (k + 1) =
          ⟨edge draw slaveFirst k (run draw slaveFirst script k), (gap, tr) :: rest⟩ :=
        hw ▸ step_blocked hidle
      have hleft : 0 < (tl.advance draw).busy draw :=
        not_not.mp (mt (hedge.getNextItem_iff draw).mpr hidle)
      exact ih (by rw [hstep]; exact hedge) (by rw [hstep]) (by omega)

theorem run_empties {rest : List (Nat × Item)} (h : (run draw slaveFirst script k).waiting = rest) :
    ∃ j, (run draw slaveFirst script j).waiting = [] := by
  induction rest generalizing k with
  | nil => exact ⟨k, h⟩
  | cons x rest ih =>
    obtain ⟨j, hj⟩ := head_taken (run_follows k) h le_rfl
    exact ih hj

theorem run_empty {n : Nat} (h : (run draw slaveFirst script n).waiting = []) (m : Nat) :
    (run draw slaveFirst script (n + m)).waiting = [] := by
  induction m with
  | zero => exact h
  | succ m ih =>
    rw [← Nat.add_assoc, run_succ, step, ih]
    split <;> rfl

theorem run_given {n : Nat} (h : (run draw slaveFirst script n).waiting = []) :
    (run draw slaveFirst script n).tb.driven = given script := by
  have hall := run_conserves draw slaveFirst script n
  rw [h] at hall
  exact (List.append_nil _).symm.trans hall

theorem exists_drained (draw : Nat → SlaveSequence.Draw) (slaveFirst : Nat → Bool)
    (script : List (Nat × Item)) :
    ∃ n, (Testbench.run (env draw slaveFirst script) n).driven = given script ∧
      ∀ j, n ≤ j → (env draw slaveFirst script).offer j = none := by
  have hstart : (run draw slaveFirst script 0).waiting = script := rfl
  obtain ⟨n, hn⟩ := run_empties hstart
  refine ⟨n, run_tb draw slaveFirst script n ▸ run_given hn, ?_⟩
  intro j hj
  obtain ⟨m, rfl⟩ := Nat.exists_eq_add_of_le hj
  change offer draw slaveFirst (n + m) _ = none
  rw [offer, run_empty hn]
  exact ite_self _

end ItemFeed

theorem items_delivered (draw : Nat → SlaveSequence.Draw) (slaveFirst : Nat → Bool)
    (script : List (Nat × Item)) :
    let s := fun k => (ItemFeed.run draw slaveFirst script k).tb
    let given := ItemFeed.given script
    (∀ k, InOrder given (s k) ∧ (s k).returned.length ≤ (s (k + 1)).masterCollected.length ∧
        (s k).returned.length ≤ (s (k + 1)).slaveCollected.length) ∧
      ∃ n, ∀ m, n ≤ m → (s m).driven = given ∧ Complete given (s m) := by
  intro s given
  let env := ItemFeed.env draw slaveFirst script
  have hs (k : Nat) : s k = Testbench.run env k := ItemFeed.run_tb draw slaveFirst script k
  simp only [hs]
  constructor
  · intro k
    have hgiven : (Testbench.run env k).driven <+: given := by
      rw [← hs]
      exact ⟨_, ItemFeed.run_conserves draw slaveFirst script k⟩
    exact ⟨(run_inOrder env k).mono hgiven, run_published env k⟩
  · obtain ⟨n, hdriven, hoffer⟩ := ItemFeed.exists_drained draw slaveFirst script
    obtain ⟨n', hn'⟩ := finite_run hoffer
    obtain ⟨n'', hn''⟩ := finite_complete hoffer
    refine ⟨max n' n'', fun m hm => ?_⟩
    have hgiven : (Testbench.run env n).driven = given := hdriven
    rw [← hgiven]
    exact ⟨(hn' m (by omega)).2, hn'' m (by omega)⟩

theorem items_delivered_backToBack :
    let s := fun k => (ItemFeed.run (fun _ => .fixed 1) (fun _ => false)
      [(0, wordWrite), (0, wordRead)] k).tb
    ∃ m, headers (s m).masterCollected = [⟨0x10, false, true, 2⟩, ⟨0x10, true, false, 2⟩] := by
  intro s
  obtain ⟨-, n, hn⟩ := items_delivered (fun _ => .fixed 1) (fun _ => false)
    [(0, wordWrite), (0, wordRead)]
  exact ⟨n, (hn n le_rfl).2.masterCollected⟩

end UbusVip
