import UbusVip.Guarantees.ClosureExit
import UbusVip.Guarantees.Completion
import UbusVip.Guarantees.Repetition

namespace UbusVip

open Interaction (Prog)
open UbusTargetAddrDirSeqf
open UbusCoverage (binOf)
open SlaveSequence (Draw)

theorem reportsFrom_append (first : Bool) (ts us : List Transfer) :
    reportsFrom first (ts ++ us) =
      reportsFrom first ts ++ reportsFrom (first && ts.isEmpty) us := by
  induction ts generalizing first with
  | nil => simp [reportsFrom]
  | cons t ts ih => simp [reportsFrom, ih]

theorem reports_mono {ts us : List Transfer} (h : ts <+: us) : reports ts <+: reports us := by
  obtain ⟨r, rfl⟩ := h
  rw [reports, reports, reportsFrom_append]
  exact List.prefix_append _ _

namespace Timeline

variable {draw : Nat → Draw} {tl : Timeline}

theorem reported_advance (draw : Nat → Draw) (tl : Timeline) :
    tl.reported <+: (tl.advance draw).reported := by
  obtain ⟨past, phase, mem⟩ := tl
  cases phase with
  | idle late | command late tr =>
    cases past with
    | nil => cases late <;> exact List.prefix_rfl
    | cons t past => exact List.prefix_append _ _
  | address tr => simp only [advance]; split <;> exact List.prefix_rfl
  | wait t i => simp only [advance]; split <;> exact List.prefix_rfl
  | beat t i =>
    simp only [advance]
    split
    · exact List.prefix_rfl
    · split
      · cases past with
        | nil => exact List.nil_prefix
        | cons u past => exact List.prefix_rfl
      · cases past with
        | nil => exact List.nil_prefix
        | cons u past => exact List.prefix_rfl
  | tail t hr =>
    cases past with
    | nil => exact List.prefix_rfl
    | cons u past => exact List.prefix_append _ _

theorem reported_after (n : Nat) (tl : Timeline) : tl.reported <+: (tl.after draw n).reported := by
  induction n generalizing tl with
  | zero => exact List.prefix_rfl
  | succ n ih => exact (reported_advance draw tl).trans (ih _)

theorem visible_prefix (b : Bool) (draw : Nat → Draw) (tl : Timeline) :
    tl.visible b draw <+: (tl.advance draw).reported := by
  rw [visible]
  split
  · exact List.prefix_rfl
  · exact reported_advance draw tl

theorem reported_prefix_visible (b : Bool) (draw : Nat → Draw) (tl : Timeline) :
    tl.reported <+: tl.visible b draw := by
  rw [visible]
  split
  · exact reported_advance draw tl
  · exact List.prefix_rfl

theorem items_of_resting (h : ¬0 < (tl.advance draw).busy draw) :
    ∃ last, last.length ≤ 1 ∧ tl.items = tl.past.map (·.item) ++ last := by
  rw [busy_advance_sub] at h
  obtain ⟨past, phase, mem⟩ := tl
  cases phase with
  | idle late =>
    refine ⟨(late.map (·.item)).toList, ?_, by cases late <;> simp [items, opened, pending]⟩
    cases late <;> simp
  | command late tr => simp only [busy] at h; omega
  | address tr => simp only [busy] at h; have := tr.size_pos; omega
  | wait t i => exact ⟨[t.item], le_rfl, by simp [items, opened, pending]⟩
  | beat t i => exact ⟨[t.item], le_rfl, by simp [items, opened, pending]⟩
  | tail t hr => exact ⟨[t.item], le_rfl, by simp [items, opened, pending]⟩

end Timeline

namespace Moment

variable {Op : Type} {Res : Op → Type} {client : Client Op Res} {e : Platform} {tl : Timeline}
  {m : Moment Op Res}

theorem Billed.covered_earlier (h : m.Billed e tl) {tr : Item}
    (htr : tr ∈ m.account.items.dropLast) :
    UbusCoverage.isCovered (m.covered e) (binOf tr.val).addr (binOf tr.val).dir
      (binOf tr.val).size = true := by
  have hne : m.account.items ≠ [] := by
    rintro hnil
    rw [hnil] at htr
    cases htr
  obtain ⟨last, hlast, hitems⟩ := Timeline.items_of_resting (h.free hne)
  have hdrop : tr ∈ (m.tl.past.map (·.item) ++ last).dropLast := by
    rw [← hitems, h.items, List.dropLast_append_of_ne_nil hne]
    exact List.mem_append_right _ htr
  have hpast : tr ∈ m.tl.past.map (·.item) := by
    rcases last with _ | ⟨x, _ | ⟨y, r⟩⟩
    · rw [List.append_nil] at hdrop
      exact List.mem_of_mem_dropLast hdrop
    · rwa [List.dropLast_concat] at hdrop
    · simp at hlast
  obtain ⟨t, ht, rfl⟩ := List.mem_map.mp hpast
  refine (covered_iff _).mpr (.inr ⟨t, ?_, rfl⟩)
  exact (Timeline.reported_prefix_visible _ _ _).subset (m.tl.past_prefix_reported.subset ht)

def seen (e : Platform) (m : Moment Op Res) : List Packet :=
  reports (m.tl.visible (e.coverageFirst m.edge) e.draw)

theorem seen_handle (client : Client Op Res) (e : Platform) (op : Op) (m : Moment Op Res) :
    m.seen e <+: (handle e client op m).2.seen e := by
  have hlater (tl : Timeline) (b : Bool) (h : (m.tl.advance e.draw).reported <+: tl.reported) :
      m.tl.visible (e.coverageFirst m.edge) e.draw <+: tl.visible b e.draw :=
    ((Timeline.visible_prefix _ _ _).trans h).trans (Timeline.reported_prefix_visible _ _ _)
  rw [handle]
  cases client (m.desk e) op with
  | now r => exact List.prefix_rfl
  | send tr r =>
    let tl := (m.tl.after e.draw ((m.tl.advance e.draw).busy e.draw)).advance e.draw
    have hgrant : (m.tl.advance e.draw).reported <+: tl.reported := by
      simp only [tl, Timeline.advance_after]
      exact Timeline.reported_after _ _
    have haccept : (tl.accept (some tr)).reported = tl.reported := Timeline.reported_accept _
    exact reports_mono (hlater _ _ (hgrant.trans (haccept ▸ Timeline.reported_after _ _)))
  | take f => exact List.prefix_rfl
  | edges n r =>
    cases n with
    | zero => exact List.prefix_rfl
    | succ n => exact reports_mono (hlater _ _ (Timeline.reported_after n _))

end Moment

def Event.sent : Event → Option Packet
  | .send p => some p
  | _ => none

def packets (trace : List Event) : List Packet := trace.filterMap Event.sent

@[simp] theorem packets_append (l r : List Event) : packets (l ++ r) = packets l ++ packets r :=
  List.filterMap_append

def Informed (trace : List Event) : Prop :=
  ∀ pre b post, trace = pre ++ .check b false :: post →
    .check b true ∉ pre ∧ ∀ p ∈ (packets pre).dropLast, binOf p ≠ b

theorem Informed.concat {trace : List Event} (h : Informed trace) {ev : Event}
    (hev : ∀ b, ev = .check b false →
      .check b true ∉ trace ∧ ∀ p ∈ (packets trace).dropLast, binOf p ≠ b) :
    Informed (trace ++ [ev]) := by
  intro pre b post heq
  rcases List.eq_nil_or_concat post with rfl | ⟨post, x, rfl⟩
  · obtain ⟨rfl, hlast⟩ := List.append_inj' heq rfl
    exact hev b (List.singleton_inj.mp hlast)
  · rw [List.concat_eq_append, ← List.cons_append, ← List.append_assoc] at heq
    exact h pre b post (List.append_inj' heq rfl).1

abbrev ClosureMoment := Moment UbusVirtualSequence.Op UbusVirtualSequence.Res

-- the sequence as it runs on its sequencer, d, and as it runs among recorded surroundings, m,
-- where it has taken in n samples
structure Sync (e : Platform) (tl : Timeline) (n : Nat) (d : ClosureMoment) (m : Observed) : Prop where
  billed : d.Billed e tl
  seen : n ≤ (d.seen e).length
  covered : m.covered = ((d.seen e).take n).foldl UbusCoverage.write UbusCoverage.init
  sent : m.sent = d.account.items.length
  packets : packets m.trace = d.account.items.map (·.val)
  legality : ∀ tr ∈ d.account.items, tr.val.globalLegality
  paused : d.account.paused = 0
  warned : ∀ w, .warn w ∈ m.trace ↔ ⟨.inl (.warning w), ()⟩ ∈ d.account.log
  checked : ∀ b, .check b true ∈ m.trace → m.covers b = true
  informed : Informed m.trace

namespace Sync

variable {e : Platform} {tl : Timeline} {n : Nat} {d : ClosureMoment} {m : Observed}
  {s : Surroundings}

theorem start (e : Platform) (tl : Timeline) :
    Sync e tl 0 (.start tl) (.start UbusCoverage.init) where
  billed := Moment.billed_start e tl
  seen := Nat.zero_le _
  covered := rfl
  sent := rfl
  packets := rfl
  legality := nofun
  paused := rfl
  warned _ := iff_of_false nofun nofun
  checked := nofun
  informed pre b post h := by simp [Observed.start] at h

theorem tick (h : Sync e tl n d m) (hs : s.samples m.clock = (d.seen e).drop n) :
    Sync e tl (d.seen e).length d (m.tick s) where
  billed := h.billed
  seen := le_rfl
  covered := by
    rw [Observed.tick, h.covered, hs, ← List.foldl_append, List.take_append_drop, List.take_length]
  sent := h.sent
  packets := h.packets
  legality := h.legality
  paused := h.paused
  warned := h.warned
  checked b hb := Observed.grows_tick b (h.checked b hb)
  informed := h.informed

theorem note (h : Sync e tl n d m) {op : UbusVirtualSequence.Op} (r : UbusVirtualSequence.Res op)
    (hop : ∀ w, op ≠ .inl (.warning w)) : Sync e tl n (d.note op r) m where
  billed := h.billed.note op r
  seen := h.seen
  covered := h.covered
  sent := h.sent
  packets := h.packets
  legality := h.legality
  paused := h.paused
  warned w := by
    rw [h.warned, Moment.note, Account.note, List.mem_append, List.mem_singleton]
    refine (or_iff_left ?_).symm
    intro heq
    exact hop w (congrArg Sigma.fst heq).symm
  checked := h.checked
  informed := h.informed

theorem warn (h : Sync e tl n d m) (w : Warning) :
    Sync e tl n (d.note (.inl (.warning w)) ()) (m.log (.warn w)) where
  billed := h.billed.note _ _
  seen := h.seen
  covered := h.covered
  sent := h.sent
  packets := (packets_append _ _).trans ((List.append_nil _).trans h.packets)
  legality := h.legality
  paused := h.paused
  warned w' := by
    have hold := h.warned w'
    simp only [Observed.log, Moment.note, Account.note, List.mem_append, List.mem_singleton, hold]
    refine or_congr_right ⟨?_, ?_⟩
    · rintro ⟨⟩
      rfl
    · intro heq
      injection heq with hop
      injection hop with hop
      injection hop with hw
      rw [hw]
  checked b hb := h.checked b (by simpa [Observed.log] using hb)
  informed := h.informed.concat nofun

theorem covers_eq (h : Sync e tl (d.seen e).length d m) (b : Bin) :
    m.covers b = UbusCoverage.isCovered (d.covered e) b.addr b.dir b.size := by
  rw [Observed.covers, h.covered, List.take_length]
  rfl

theorem check (h : Sync e tl (d.seen e).length d m) (b : Bin) :
    Sync e tl (d.seen e).length d (m.log (.check b (m.covers b))) where
  billed := h.billed
  seen := h.seen
  covered := h.covered
  sent := h.sent
  packets := (packets_append _ _).trans ((List.append_nil _).trans h.packets)
  legality := h.legality
  paused := h.paused
  warned w := by simpa [Observed.log] using h.warned w
  checked b' hb := by
    rcases List.mem_append.mp hb with hb | hb
    · exact h.checked b' hb
    · injection List.mem_singleton.mp hb with hbin hcov
      rw [hbin]
      exact hcov.symm
  informed := by
    refine h.informed.concat ?_
    intro b' heq
    injection heq with hbin hcov
    subst hbin
    refine ⟨fun hb => absurd (h.checked b hb) (by simp [hcov]), ?_⟩
    rintro p hp rfl
    rw [h.packets, ← List.map_dropLast] at hp
    obtain ⟨tr, htr, rfl⟩ := List.mem_map.mp hp
    have hearlier := h.billed.covered_earlier htr
    rw [← h.covers_eq, hcov] at hearlier
    cases hearlier

theorem send (h : Sync e tl n d m) (tr : Item) (htr : tr.val.globalLegality)
    (hseen : d.seen e <+: (d.send e tr).seen e) :
    Sync e tl n (d.send e tr) { m.log (.send tr.val) with sent := m.sent + 1 } where
  billed := h.billed.send tr
  seen := h.seen.trans hseen.length_le
  covered := by
    obtain ⟨r, hr⟩ := hseen
    rw [← hr, List.take_append_of_le_length h.seen]
    exact h.covered
  sent := by
    change m.sent + 1 = (d.account.items ++ [tr]).length
    rw [h.sent, List.length_append, List.length_singleton]
  packets := by
    change UbusVip.packets (m.trace ++ [.send tr.val]) = (d.account.items ++ [tr]).map _
    rw [packets_append, h.packets, List.map_append]
    rfl
  legality := by
    intro u hu
    rcases List.mem_append.mp hu with hu | hu
    · exact h.legality u hu
    · rwa [List.mem_singleton.mp hu]
  paused := h.paused
  warned w := by
    have hlog : (d.send e tr).account.log = d.account.log := rfl
    rw [hlog]
    simpa [Observed.log] using h.warned w
  checked b hb := h.checked b (by simpa [Observed.log] using hb)
  informed := h.informed.concat nofun

theorem take (h : Sync e tl n d m) : Sync e tl n d.take m :=
  ⟨h.billed.take, h.seen, h.covered, h.sent, h.packets, h.legality, h.paused, h.warned, h.checked,
    h.informed⟩

theorem answer (h : Sync e tl n d m) (hs : s.samples m.clock = (d.seen e).drop n)
    (hr : s.response m.clock = d.oldest) (op : Op) :
    (Observed.answer s op m).1 =
        (Moment.handle e (UbusVirtualSequence.client s.solver) (.inl op) d).1 ∧
      Sync e tl (d.seen e).length
        (Moment.handle e (UbusVirtualSequence.client s.solver) (.inl op) d).2
        (Observed.answer s op m).2 := by
  have htick := h.tick hs
  cases op with
  | isCovered a i j =>
    have hcov := htick.covers_eq ⟨a, i, j⟩
    exact ⟨hcov, (htick.check ⟨a, i, j⟩).note _ nofun⟩
  | doWith c =>
    let sol := s.solver (d.desk e).sent c
    have hnote : Sync e tl (d.seen e).length (d.note (.inl (.doWith c)) ()) (m.tick s) :=
      htick.note _ nofun
    have hanswer : (Observed.answer s (.doWith c) m).2 =
        { (m.tick s).log (.send sol.item.val) with sent := (m.tick s).sent + 1 } := by
      rw [show sol = s.solver m.sent c from congrArg (s.solver · c) h.sent.symm]
      rfl
    refine ⟨rfl, ?_⟩
    rw [hanswer]
    exact hnote.send sol.item sol.legality
      (Moment.seen_handle (UbusVirtualSequence.client s.solver) e (.inl (.doWith c)) d)
  | getResponse =>
    have hnote : Sync e tl (d.seen e).length (d.note (.inl .getResponse) d.oldest) (m.tick s) :=
      htick.note _ nofun
    exact ⟨hr, hnote.take⟩
  | warning w => exact ⟨rfl, htick.warn w⟩

end Sync

def Surroundings.Plays (s : Surroundings) (k : Nat) (rec : List (List Packet × Packet)) : Prop :=
  ∀ i x, rec[i]? = some x → s.samples (k + i) = x.1 ∧ s.response (k + i) = x.2

theorem Surroundings.Plays.tail {s : Surroundings} {k : Nat} {x : List Packet × Packet}
    {rec : List (List Packet × Packet)} (h : s.Plays k (x :: rec)) : s.Plays (k + 1) rec := by
  intro i y hy
  rw [Nat.add_assoc, Nat.add_comm 1]
  exact h (i + 1) y hy

theorem clock_answer (s : Surroundings) (op : Op) (m : Observed) :
    (Observed.answer s op m).2.clock = m.clock + 1 := by
  cases op <;> rfl

theorem run_sync {α : Type} (e : Platform) (tl : Timeline) (solver : Solver) (p : Seq α) (n : Nat)
    (d : ClosureMoment) :
    let client := UbusVirtualSequence.client solver
    ∃ rec, ∀ (s : Surroundings) (m : Observed), s.solver = solver → s.Plays m.clock rec →
      Sync e tl n d m →
        (p.run (Observed.answer s) m).1 = (p.inl.run (Moment.handle e client) d).1 ∧
          ∃ n', Sync e tl n' (p.inl.run (Moment.handle e client) d).2
            (p.run (Observed.answer s) m).2 := by
  induction p generalizing n d with
  | ret a => exact ⟨[], fun s m _ _ h => ⟨rfl, n, h⟩⟩
  | call op next ih =>
    intro client
    let out := Moment.handle e client (.inl op) d
    obtain ⟨rec, hrec⟩ := ih out.1 (d.seen e).length out.2
    refine ⟨((d.seen e).drop n, d.oldest) :: rec, ?_⟩
    rintro s m rfl hplays h
    obtain ⟨hs, hr⟩ := hplays 0 _ rfl
    obtain ⟨hout, hsync⟩ := h.answer hs hr op
    have htail : s.Plays (Observed.answer s op m).2.clock rec := by
      rw [clock_answer]
      exact hplays.tail
    have hrest := hrec s (Observed.answer s op m).2 rfl htail hsync
    rw [Prog.run, hout]
    exact hrest

end UbusVip
