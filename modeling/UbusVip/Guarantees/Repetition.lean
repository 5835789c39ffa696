import UbusVip.Guarantees.Delivery
import UbusVip.Guarantees.Pairing
import UbusVip.Refinement.Sequencer

namespace UbusVip

open Interaction (Prog)
open UbusTargetAddrDirSeqf
open UbusCoverage (binOf)

def Header.bin (h : Header) : Bin :=
  ⟨UbusCoverage.addrToIndex h.addr.toNat, UbusCoverage.dirToIndex h.read,
    UbusCoverage.sizeToIndex h.size⟩

theorem bins_eq (ps : List Packet) : ps.map binOf = (headers ps).map Header.bin := by
  rw [headers, List.map_map]; rfl

theorem itemBins_eq (ts : List Transfer) :
    ts.map (binOf ·.item.val) = (itemHeaders (ts.map (·.item))).map Header.bin := by
  rw [itemHeaders, List.map_map, List.map_map]; rfl

theorem reports_bins (ts : List Transfer) : (reports ts).map binOf = ts.map (binOf ·.item.val) := by
  rw [bins_eq, reports_headers, itemBins_eq]

theorem handed_bin (t : Transfer) : binOf (t.handed t.size) = binOf t.item.val :=
  congrArg Header.bin (t.handed_header t.size)

-- the sample of a transaction that returns now is not in yet when the sequence looks
def sampleLate (read first coverageFirst : Bool) : Bool :=
  if first then read && !coverageFirst else read || !coverageFirst

namespace Timeline

structure Returns (draw : Nat → SlaveSequence.Draw) (tl : Timeline) (t : Transfer) : Prop where
  items : tl.items = tl.past.map (·.item) ++ [t.item]
  earlier : tl.finished = tl.past
  finished : (tl.advance draw).finished = tl.past ++ [t]
  sampled : ∀ coverageFirst, (if coverageFirst then (tl.advance draw).reported else tl.reported) =
    if sampleLate t.read tl.past.isEmpty coverageFirst then tl.past else tl.past ++ [t]

theorem returns_of_lt {draw : Nat → SlaveSequence.Draw} {tl : Timeline}
    (h : tl.finished.length < (tl.advance draw).finished.length) : ∃ t, tl.Returns draw t := by
  obtain ⟨past, phase, mem⟩ := tl
  cases phase with
  | idle late => simp [finished, advance] at h
  | command late tr => simp [finished, advance] at h
  | address tr =>
    by_cases hw : 0 < (Transfer.serve mem tr (draw past.length)).waits <;>
      simp [finished, advance, firstBeat, hw] at h
  | wait t i => by_cases hi : i + 1 < t.waits <;> simp [finished, advance, firstBeat, hi] at h
  | beat t i =>
    by_cases hi : i + 1 < t.size
    · simp [finished, advance, hi] at h
    · cases hr : t.read with
      | true =>
        refine ⟨t, by simp [items, opened, pending], rfl, ?_, ?_⟩
        · simp [advance, hi, hr, finished]
        · intro coverageFirst
          simp only [advance, dif_neg hi, hr, dif_pos, reported, sampleLate]
          cases past <;> cases coverageFirst <;> rfl
      | false =>
        simp [finished, advance, hi, hr] at h
  | tail t hr =>
    refine ⟨t, by simp [items, opened, pending], rfl, by simp [advance, finished], ?_⟩
    intro coverageFirst
    simp only [advance, reported, hr, sampleLate]
    cases past <;> cases coverageFirst <;> rfl

end Timeline

namespace Moment

variable {Op : Type} {Res : Op → Type} {e : Platform} {m : Moment Op Res}

theorem covered_iff (b : Bin) :
    UbusCoverage.isCovered (m.covered e) b.addr b.dir b.size = true ↔
      UbusCoverage.isCovered UbusCoverage.init b.addr b.dir b.size = true ∨
        ∃ t ∈ m.tl.visible (e.coverageFirst m.edge) e.draw, binOf t.item.val = b := by
  have hbins := reports_bins (m.tl.visible (e.coverageFirst m.edge) e.draw)
  rw [covered, UbusCoverage.isCovered_foldl]
  refine or_congr_right ?_
  calc (∃ t ∈ reports (m.tl.visible (e.coverageFirst m.edge) e.draw), binOf t = b)
      ↔ b ∈ (reports (m.tl.visible (e.coverageFirst m.edge) e.draw)).map binOf := List.mem_map.symm
    _ ↔ _ := by rw [hbins, List.mem_map]

end Moment

namespace SequenceRun

variable {Op : Type} {Res : Op → Type} {α : Type} {client : Client Op Res} {e : Platform} {k : Nat}
  {c : SequenceRun Op Res α}

def Noted (client : Client Op Res) (desk : Desk) (acc acc' : Account Op Res) : Prop :=
  ∃ new, acc'.log = acc.log ++ new ∧ ∀ x ∈ new, (client desk x.1).Gives x.2

theorem Noted.refl (client : Client Op Res) (desk : Desk) (acc : Account Op Res) :
    Noted client desk acc acc := ⟨[], (List.append_nil _).symm, nofun⟩

theorem Noted.note {desk : Desk} {op : Op} {r : Res op} (h : (client desk op).Gives r)
    {acc acc' : Account Op Res} (hacc : Noted client desk (acc.note op r) acc') :
    Noted client desk acc acc' := by
  obtain ⟨new, hlog, hnew⟩ := hacc
  refine ⟨⟨op, r⟩ :: new, ?_, List.forall_mem_cons.mpr ⟨h, hnew⟩⟩
  rw [hlog, Account.note, List.append_assoc]
  rfl

theorem exec_noted (client : Client Op Res) (desk : Desk) (tb : Testbench) (p : Prog Op Res α)
    (acc : Account Op Res) : Noted client desk acc (exec client desk tb p acc).account := by
  induction p generalizing acc with
  | ret a => exact .refl client desk acc
  | call op next ih =>
    rw [exec]
    cases hd : client desk op with
    | now r => exact .note (hd ▸ rfl) (ih _ _)
    | send tr r =>
      have hnote : Noted client desk acc (acc.note op r) := .note (hd ▸ rfl) (.refl client desk _)
      simp only
      split
      · exact hnote
      · exact hnote
    | take f =>
      cases hq : acc.queue with
      | nil => exact .refl client desk acc
      | cons rsp queue => exact .note (hd ▸ ⟨rsp, rfl⟩) (ih (f rsp) (acc.note op (f rsp)).take)
    | edges n r =>
      cases n with
      | zero => exact .note (hd ▸ rfl) (ih _ _)
      | succ n =>
        have hnote : Noted client desk acc (acc.note op r) := .note (hd ▸ rfl) (.refl client desk _)
        exact hnote

theorem step_noted (client : Client Op Res) (e : Platform) (k : Nat) (c : SequenceRun Op Res α) :
    Noted client (desk e k c) c.account (step client e k c).account := by
  have hrefl : Noted client (desk e k c) c.account c.account := .refl client _ _
  obtain ⟨-, hstep⟩ | ⟨tr, -, -, hstep⟩ | ⟨-, -, hstep⟩ := step_cases client e k c
  · rw [hstep]
    exact hrefl
  · rw [hstep]
    exact hrefl
  · obtain ⟨new, hlog, hnew⟩ := exec_noted client (desk e k c) (edge e k c) c.rest (served e k c)
    rw [served_log] at hlog
    exact ⟨new, by rw [hstep, hlog], hnew⟩

end SequenceRun

namespace UbusTargetAddrDirSeqf

variable {solver : Solver} {e : Platform} {k : Nat} {c : SequenceRun Op Res Unit} {b : Bin}

def StaleHit (e : Platform) (k : Nat) (c : SequenceRun Op Res Unit) (b : Bin) : Prop :=
  ∃ tr, c.account.items.getLast? = some tr ∧ binOf tr.val = b ∧
    sampleLate tr.val.read (c.tb.driven.length == 1) (e.coverageFirst k) = true

theorem never_edges (desk : Desk) (op : Op) (n : Nat) (r : Res op) :
    client solver desk op ≠ .edges n r := by
  cases op with
  | isCovered a d s | doWith i | getResponse | warning w => nofun

def Underway : Blocked → Prop
  | .start => False
  | .edges _ => False
  | _ => True

theorem exec_underway (desk : Desk) (tb : Testbench) (p : Seq Unit) (acc : Account Op Res) :
    Underway (SequenceRun.exec (client solver) desk tb p acc).blocked := by
  induction p generalizing acc with
  | ret a => trivial
  | call op next ih =>
    rw [SequenceRun.exec]
    cases hd : client solver desk op with
    | now r => exact ih _ _
    | send tr r =>
      simp only
      split
      · trivial
      · trivial
    | take f =>
      cases hq : acc.queue with
      | nil => trivial
      | cons rsp queue => exact ih _ _
    | edges m r => exact absurd hd (never_edges desk op m r)

structure Coupled (solver : Solver) (c : SequenceRun Op Res Unit) : Prop where
  follows : ∃ tl, Follows UbusCoverage.init tl c.tb
  tidy : c.Tidy (client solver)
  taken : c.account.taken ⊆ c.tb.returned
  fresh : c.blocked = .start → c.account = .empty
  last : c.blocked = .item → c.tb.driven.getLast? = c.account.items.getLast?
  underway : c.blocked = .start ∨ Underway c.blocked

theorem Coupled.start {tb : Testbench} (h : ∃ tl, Follows UbusCoverage.init tl tb) {p : Seq Unit}
    (hp : Paired (client solver) p) : Coupled solver (.start tb p) :=
  ⟨h, ⟨rfl, hp⟩, List.nil_subset _, fun _ => rfl, nofun, .inl rfl⟩

theorem returned_step (solver : Solver) (e : Platform) (k : Nat) (c : SequenceRun Op Res Unit) :
    (c.step (client solver) e k).tb.returned = (c.edge e k).returned := by
  obtain ⟨offer, htb⟩ := SequenceRun.step_accepts (client solver) e k c
  rw [htb, Testbench.returned_accept]

theorem response_mem (h : c.tb.returned.length < (c.edge e k).returned.length) :
    c.response e k ∈ (c.edge e k).returned := by
  have hne : (c.edge e k).returned ≠ [] := by
    intro hnil
    rw [hnil] at h
    exact absurd h (Nat.not_lt_zero _)
  rw [SequenceRun.response, List.getLast?_eq_getLast_of_ne_nil hne]
  exact List.getLast_mem hne

theorem Coupled.taken_step (h : Coupled solver c) (e : Platform) (k : Nat) :
    (c.step (client solver) e k).account.taken ⊆ (c.step (client solver) e k).tb.returned := by
  have hgrown : c.account.taken ⊆ (c.edge e k).returned := fun p hp =>
    (Testbench.grows_edge e.draw (e.slaveFirst k) c.tb).returned.subset (h.taken hp)
  rw [returned_step]
  by_cases hr : c.Resumes e k
  · rw [SequenceRun.step_resumes hr, (h.tidy.resume hr).2]
    refine List.append_subset.mpr ⟨hgrown, ?_⟩
    split
    · rename_i hitem
      simp only [SequenceRun.Resumes, hitem] at hr
      exact List.cons_subset.mpr ⟨response_mem hr, List.nil_subset _⟩
    · exact List.nil_subset _
  · rw [SequenceRun.step_blocked hr]
    exact hgrown

theorem Coupled.last_step (h : Coupled solver c) (e : Platform) (k : Nat)
    (hitem : (c.step (client solver) e k).blocked = .item) :
    (c.step (client solver) e k).tb.driven.getLast? =
      (c.step (client solver) e k).account.items.getLast? := by
  obtain ⟨-, hstep⟩ | ⟨tr, -, hidle, hstep⟩ | ⟨-, -, hstep⟩ :=
    SequenceRun.step_cases (client solver) e k c
  · rw [hstep] at hitem ⊢
    refine h.last ?_
    cases hb : c.blocked with
    | item => rfl
    | start | grant tr | response | edges n | ended =>
      simp only [hb, Blocked.tick] at hitem
      cases hitem
  · simp only [hstep, Testbench.accept_idle hidle, Account.send, List.getLast?_concat]
  · rw [hstep] at hitem ⊢
    obtain ⟨tr, hidle, htb, -, hitems⟩ | ⟨-, hne, -⟩ :=
      SequenceRun.exec_cases (client solver) (c.desk e k) (c.edge e k) c.rest (c.served e k)
    · rw [htb, hitems, Testbench.accept_idle hidle, List.getLast?_concat, List.getLast?_concat]
    · exact absurd hitem hne

theorem Coupled.underway_step (h : Coupled solver c) (e : Platform) (k : Nat) :
    Underway (c.step (client solver) e k).blocked := by
  obtain ⟨hr, hstep⟩ | ⟨tr, -, -, hstep⟩ | ⟨-, -, hstep⟩ :=
    SequenceRun.step_cases (client solver) e k c
  · rw [hstep]
    rcases h.underway with hb | hb
    · exact absurd (by simp only [SequenceRun.Resumes, hb]) hr
    · cases hc : c.blocked with
      | start | edges n =>
        rw [hc] at hb
        exact hb.elim
      | grant tr | item | response | ended => trivial
  · rw [hstep]
    trivial
  · rw [hstep]
    exact exec_underway ..

theorem Coupled.step (h : Coupled solver c) (e : Platform) (k : Nat) :
    Coupled solver (c.step (client solver) e k) := by
  obtain ⟨tl, htl⟩ := h.follows
  obtain ⟨offer, htb⟩ := SequenceRun.step_accepts (client solver) e k c
  have hfollows : Follows UbusCoverage.init _ (c.step (client solver) e k).tb :=
    htb ▸ accept_follows (SequenceRun.edge_follows htl) offer
  have hunder := h.underway_step e k
  refine ⟨⟨_, hfollows⟩, h.tidy.step e k, h.taken_step e k, fun hb => ?_, h.last_step e k, .inr hunder⟩
  rw [hb] at hunder
  exact hunder.elim

theorem run_coupled (e : Platform) (env : Env) (k₀ nRepeat k : Nat) :
    Coupled solver (SequenceRun.run (client solver) e (Testbench.run env k₀) (body nRepeat true) k) :=
  Clocked.run_invariant (Coupled.start ⟨_, run_follows env k₀⟩ (paired_body nRepeat))
    (fun k _ h => h.step e k) k

theorem mem_missed (h : b ∈ missed solver e k c) :
    c.Resumes e k ∧ (∀ tr, c.blocked ≠ .grant tr) ∧
      UbusCoverage.isCovered (c.desk e k).covered b.addr b.dir b.size = false := by
  have hlogged : (c.step (client solver) e k).account.log ≠ c.account.log := by
    intro hlog
    rw [missed, hlog, List.drop_length] at h
    cases h
  obtain ⟨-, hstep⟩ | ⟨tr, -, -, hstep⟩ | ⟨hr, hgrant, -⟩ :=
    SequenceRun.step_cases (client solver) e k c
  · exact absurd (by rw [hstep]) hlogged
  · exact absurd (by rw [hstep]; rfl) hlogged
  refine ⟨hr, hgrant, ?_⟩
  obtain ⟨new, hlog, hnew⟩ := SequenceRun.step_noted (client solver) e k c
  rw [missed, hlog, List.drop_left, List.mem_filterMap] at h
  obtain ⟨⟨op, r⟩, hasked, hbin⟩ := h
  have hgives := hnew _ hasked
  cases op with
  | isCovered a d s =>
    cases r with
    | true => cases hbin
    | false =>
      cases hbin
      exact hgives.symm
  | doWith i | getResponse | warning w => cases hbin

theorem not_visible_of_missed {tl : Timeline} (htl : Follows UbusCoverage.init tl c.tb)
    (h : b ∈ missed solver e k c) :
    ∀ t ∈ tl.visible (e.coverageFirst k) e.draw, binOf t.item.val ≠ b := by
  intro t ht hbin
  have hcov := (mem_missed h).2.2
  have hdesk : c.desk e k = Moment.desk e ⟨k, tl, 0, false, c.account⟩ :=
    SequenceRun.desk_eq htl rfl 0 false
  rw [hdesk] at hcov
  have hseen := (Moment.covered_iff (e := e) (m := ⟨k, tl, 0, false, c.account⟩) b).mpr
    (.inr ⟨t, ht, hbin⟩)
  exact Bool.false_ne_true (hcov.symm.trans hseen)

theorem staleHit_iff {tl : Timeline} {t : Transfer} (hc : Coupled solver c)
    (htl : Follows UbusCoverage.init tl c.tb) (hitem : c.blocked = .item)
    (ht : tl.Returns e.draw t) :
    StaleHit e k c b ↔
      binOf t.item.val = b ∧ sampleLate t.read tl.past.isEmpty (e.coverageFirst k) = true := by
  have hdriven : c.tb.driven = tl.past.map (·.item) ++ [t.item] := htl.driven.trans ht.items
  have hlast : c.account.items.getLast? = some t.item := by
    rw [← hc.last hitem, hdriven, List.getLast?_concat]
  have hfirst : (c.tb.driven.length == 1) = tl.past.isEmpty := by
    rw [hdriven]
    cases tl.past <;> simp
  simp only [StaleHit, hlast, hfirst, Option.some_inj, exists_eq_left']
  rfl

theorem fresh_iff_of_item (hc : Coupled solver c) (hitem : c.blocked = .item)
    (hmiss : b ∈ missed solver e k c) :
    (∀ p ∈ (c.step (client solver) e k).account.taken, binOf p ≠ b) ↔ ¬StaleHit e k c b := by
  obtain ⟨tl, htl⟩ := hc.follows
  have hr := (mem_missed hmiss).1
  have hedge : Follows UbusCoverage.init (tl.advance e.draw) (c.edge e k) :=
    SequenceRun.edge_follows htl
  obtain ⟨t, ht⟩ := Timeline.returns_of_lt ((SequenceRun.resumes_item_iff htl hitem).mp hr)
  have hvisible := not_visible_of_missed htl hmiss
  rw [Timeline.visible, ht.sampled] at hvisible
  have hresponse : c.response e k = t.handed t.size := by
    have hreturned : (c.edge e k).returned = (tl.past ++ [t]).map fun u => u.handed u.size :=
      hedge.returned.trans (congrArg (List.map _) ht.finished)
    rw [SequenceRun.response, hreturned, List.map_append, List.map_singleton, List.getLast?_concat]
    rfl
  have hearlier : ∀ p ∈ c.account.taken, ∃ u ∈ tl.past, binOf p = binOf u.item.val := by
    intro p hp
    have hmem : p ∈ tl.finished.map fun u => u.handed u.size := htl.returned ▸ hc.taken hp
    rw [ht.earlier] at hmem
    obtain ⟨u, hu, rfl⟩ := List.mem_map.mp hmem
    exact ⟨u, hu, handed_bin u⟩
  rw [SequenceRun.step_resumes hr, (hc.tidy.resume hr).2, if_pos hitem, hresponse,
    staleHit_iff hc htl hitem ht]
  simp only [List.mem_append, List.mem_singleton]
  constructor
  · rintro hfresh ⟨hbin, -⟩
    exact hfresh _ (.inr rfl) ((handed_bin t).trans hbin)
  · rintro hok p (hp | rfl) hbin
    · obtain ⟨u, hu, hpu⟩ := hearlier p hp
      refine hvisible u ?_ (hpu.symm.trans hbin)
      split
      · exact hu
      · exact List.mem_append_left _ hu
    · rw [handed_bin] at hbin
      have hlate : ¬sampleLate t.read tl.past.isEmpty (e.coverageFirst k) = true :=
        fun hlate => hok ⟨hbin, hlate⟩
      rw [if_neg hlate] at hvisible
      exact hvisible t (List.mem_append_right _ (List.mem_singleton_self _)) hbin

theorem fresh_iff (hc : Coupled solver c) (hmiss : b ∈ missed solver e k c) :
    (∀ p ∈ (c.step (client solver) e k).account.taken, binOf p ≠ b) ↔ ¬StaleHit e k c b := by
  obtain ⟨hr, hgrant, -⟩ := mem_missed hmiss
  have hexpects := hc.tidy.expects
  cases hb : c.blocked with
  | start =>
    have hempty := hc.fresh hb
    have htaken : (c.step (client solver) e k).account.taken = [] := by
      rw [SequenceRun.step_resumes hr, (hc.tidy.resume hr).2, hb, hempty]
      rfl
    rw [htaken]
    refine iff_of_true nofun ?_
    rintro ⟨tr, htr, -⟩
    rw [hempty] at htr
    cases htr
  | grant tr => exact absurd hb (hgrant tr)
  | item => exact fresh_iff_of_item hc hb hmiss
  | response =>
    rw [hb] at hexpects
    exact hexpects.elim
  | edges n =>
    rcases hc.underway with hs | hs
    · exact absurd (hb.symm.trans hs) nofun
    · rw [hb] at hs
      exact hs.elim
  | ended =>
    simp only [SequenceRun.Resumes, hb] at hr

def Asks : Op → Prop
  | .isCovered _ _ _ => True
  | _ => False

structure Mute (c : SequenceRun Op Res Unit) : Prop where
  rest : c.rest.Only (¬Asks ·)
  log : ∀ x ∈ c.account.log, ¬Asks x.1

theorem Mute.exec {p : Seq Unit} {acc : Account Op Res} (hp : p.Only (¬Asks ·))
    (hlog : ∀ x ∈ acc.log, ¬Asks x.1) (desk : Desk) (tb : Testbench) :
    Mute (SequenceRun.exec (client solver) desk tb p acc) := by
  induction p generalizing acc with
  | ret a => exact ⟨trivial, hlog⟩
  | call op next ih =>
    have hnote (r : Res op) : ∀ x ∈ (acc.note op r).log, ¬Asks x.1 := by
      intro x hx
      rcases List.mem_append.mp hx with hx | hx
      · exact hlog x hx
      · obtain rfl := List.mem_singleton.mp hx
        exact hp.1
    rw [SequenceRun.exec]
    cases hd : client solver desk op with
    | now r => exact ih r (hp.2 r) (hnote r)
    | send tr r =>
      simp only
      split
      · exact ⟨hp.2 r, hnote r⟩
      · exact ⟨hp.2 r, hnote r⟩
    | take f =>
      cases hq : acc.queue with
      | nil => exact ⟨hp, hlog⟩
      | cons rsp queue => exact ih _ (hp.2 _) (hnote _)
    | edges n r => exact absurd hd (never_edges desk op n r)

theorem Mute.step (h : Mute c) (solver : Solver) (e : Platform) (k : Nat) :
    Mute (c.step (client solver) e k) := by
  obtain ⟨-, hstep⟩ | ⟨tr, -, -, hstep⟩ | ⟨-, -, hstep⟩ :=
    SequenceRun.step_cases (client solver) e k c
  · rw [hstep]
    exact ⟨h.rest, h.log⟩
  · rw [hstep]
    exact ⟨h.rest, h.log⟩
  · rw [hstep]
    refine .exec h.rest ?_ _ _
    rw [SequenceRun.served_log]
    exact h.log

theorem Mute.missed (h : Mute c) : missed solver e k c = [] := by
  refine List.filterMap_eq_nil_iff.mpr fun x hx => ?_
  have hask := (h.step solver e k).log x (List.mem_of_mem_drop hx)
  obtain ⟨op, r⟩ := x
  cases op with
  | isCovered a d s => exact absurd trivial hask
  | doWith i | getResponse | warning w => rfl

theorem run_mute (solver : Solver) (e : Platform) (tb : Testbench) (nRepeat k : Nat) :
    Mute (SequenceRun.run (client solver) e tb (body nRepeat false) k) := by
  have hblind : (doWith .blind).Only (¬Asks ·) := ⟨id, fun _ => trivial⟩
  have hbody : (body nRepeat false).Only (¬Asks ·) := ⟨id, fun _ => Prog.Only.forM (fun _ => hblind) _⟩
  have hstart : Mute (.start tb (body nRepeat false)) := ⟨hbody, List.forall_mem_nil _⟩
  exact Clocked.run_invariant hstart (fun k _ h => h.step solver e k) k

theorem run_fresh_iff (solver : Solver) (e : Platform) (env : Env) (k₀ nRepeat : Nat) (handle : Bool)
    (k : Nat) (b : Bin) :
    let c := SequenceRun.run (client solver) e (Testbench.run env k₀) (body nRepeat handle)
    b ∈ missed solver e k (c k) →
      ((∀ p ∈ (c (k + 1)).account.taken, binOf p ≠ b) ↔ ¬StaleHit e k (c k) b) := by
  intro c hmiss
  cases handle with
  | true => exact fresh_iff (run_coupled e env k₀ nRepeat k) hmiss
  | false =>
    rw [(run_mute solver e _ nRepeat k).missed] at hmiss
    cases hmiss

section Kinds

variable {env : Env} {k₀ nRepeat : Nat} {handle : Bool} {tr : Item}

theorem repeats_after_read
    (hmiss : b ∈ missed solver e k
      (SequenceRun.run (client solver) e (Testbench.run env k₀) (body nRepeat handle) k)) :
    let c := SequenceRun.run (client solver) e (Testbench.run env k₀) (body nRepeat handle)
    (c k).account.items.getLast? = some tr → binOf tr.val = b → tr.val.read = true →
      (c k).tb.driven.length ≠ 1 → ∃ p ∈ (c (k + 1)).account.taken, binOf p = b := by
  intro c hlast hbin hread hfirst
  have hstale : StaleHit e k (c k) b :=
    ⟨tr, hlast, hbin, by rw [beq_false_of_ne hfirst, hread]; rfl⟩
  by_contra! hnone
  exact (run_fresh_iff solver e env k₀ nRepeat handle k b hmiss).mp hnone hstale

theorem fresh_after_write
    (hmiss : b ∈ missed solver e k
      (SequenceRun.run (client solver) e (Testbench.run env k₀) (body nRepeat handle) k)) :
    let c := SequenceRun.run (client solver) e (Testbench.run env k₀) (body nRepeat handle)
    (c k).account.items.getLast? = some tr → tr.val.read = false → e.coverageFirst k = true →
      ∀ p ∈ (c (k + 1)).account.taken, binOf p ≠ b := by
  intro c hlast hwrite hcov
  refine (run_fresh_iff solver e env k₀ nRepeat handle k b hmiss).mpr ?_
  rintro ⟨u, hu, -, hlate⟩
  obtain rfl : tr = u := Option.some_inj.mp (hlast.symm.trans hu)
  rw [hwrite, hcov] at hlate
  simp [sampleLate] at hlate

end Kinds

end UbusTargetAddrDirSeqf

theorem repeats_iff_stale (solver : Solver) (e : Platform) (env : Env) (k₀ nRepeat : Nat)
    (handle : Bool) (k : Nat) (b : Bin) :
    let c := SequenceRun.run (client solver) e (Testbench.run env k₀) (body nRepeat handle)
    b ∈ missed solver e k (c k) →
      ((∀ p ∈ (c (k + 1)).account.taken, binOf p ≠ b) ↔ ¬StaleHit e k (c k) b) :=
  run_fresh_iff solver e env k₀ nRepeat handle k b

def Platform.eager : Platform := ⟨fun _ => .fixed 0, fun _ => false, fun _ => true⟩

theorem repeats_iff_stale_halfWords :
    let c := SequenceRun.run (client halfWords) .eager (.init UbusCoverage.init) (body 4 true)
    (∀ p ∈ (c 20).account.taken, binOf p ≠ ⟨0, 1, 1⟩) ↔ ¬StaleHit .eager 19 (c 19) ⟨0, 1, 1⟩ :=
  repeats_iff_stale halfWords .eager .writeThenRead 0 4 true 19 ⟨0, 1, 1⟩ (by decide)

theorem halfWords_repeats :
    let c := SequenceRun.run (client halfWords) .eager (.init UbusCoverage.init) (body 4 true)
    ⟨0, 1, 1⟩ ∈ missed halfWords .eager 19 (c 19) ∧
      (c 20).account.items.length = (c 19).account.items.length + 1 ∧
      ∃ p ∈ (c 20).account.taken, binOf p = ⟨0, 1, 1⟩ := by decide

end UbusVip
