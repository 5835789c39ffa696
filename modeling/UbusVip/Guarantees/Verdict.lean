import UbusVip.Guarantees.Capture
import UbusVip.Guarantees.Delivery

namespace UbusVip

open FilledMemory (Access replay writes touches conflicts reference)

namespace Stimulus

-- a write carries its item's bytes; a read returns, at each address, 0 if a write of the run
-- has covered it (request objects are served before their data is captured), else the fill of
-- the first read that covers it
def byte (hist : List Stimulus) (x : Stimulus) (i : Nat) : Byte :=
  if x.1.val.read then
    ((reference ((hist ++ [x]).flatMap accesses) (x.1.val.addr.toNat + i)).getD 0).setWidth 8
  else x.1.val.byte i

def shifted (hist : List Stimulus) (x : Stimulus) (i : Nat) : Byte :=
  if hist = [] then x.byte hist i else if i + 1 < x.1.val.size then x.byte hist (i + 1) else 0

def shiftedAt (hist : List Stimulus) (x : Stimulus) (a : Nat) : Word :=
  (x.shifted hist (a - x.1.val.addr.toNat)).setWidth 32

def reported (hist : List Stimulus) (x : Stimulus) : List (Access Nat Word) :=
  if x.1.val.read then touches (x.shiftedAt hist) x.1.val.span
  else writes (x.shiftedAt hist) x.1.val.span

end Stimulus

def reportedFrom (hist : List Stimulus) : List Stimulus → List (Access Nat Word)
  | [] => []
  | x :: xs => x.reported hist ++ reportedFrom (hist ++ [x]) xs

def reportedAccesses (xs : List Stimulus) : List (Access Nat Word) := reportedFrom [] xs

theorem reportedFrom_concat (hist xs : List Stimulus) (x : Stimulus) :
    reportedFrom hist (xs ++ [x]) = reportedFrom hist xs ++ x.reported (hist ++ xs) := by
  induction xs generalizing hist with
  | nil => simp [reportedFrom]
  | cons y xs ih => simp [reportedFrom, ih]

theorem reportedAccesses_concat (xs : List Stimulus) (x : Stimulus) :
    reportedAccesses (xs ++ [x]) = reportedAccesses xs ++ x.reported xs :=
  reportedFrom_concat [] xs x

def Consistent (xs : List Stimulus) : Prop :=
  ∀ pre x post, xs = pre ++ x :: post → x.1.val.read = true →
    ∀ a, Covers x.1 a → ∀ e, reference (reportedAccesses pre) a = some e → e = x.shiftedAt pre a

theorem consistent_concat (xs : List Stimulus) (x : Stimulus) :
    Consistent (xs ++ [x]) ↔ Consistent xs ∧ (x.1.val.read = true → ∀ a, Covers x.1 a →
      ∀ e, reference (reportedAccesses xs) a = some e → e = x.shiftedAt xs a) := by
  constructor
  · intro h
    exact ⟨fun pre y post heq => h pre y (post ++ [x]) (by simp [heq]), h xs x [] rfl⟩
  · rintro ⟨hall, hlast⟩ pre y post heq
    rcases List.eq_nil_or_concat post with rfl | ⟨post', z, rfl⟩
    · obtain ⟨rfl, hy⟩ := List.append_inj' heq rfl
      obtain rfl : x = y := by simpa using hy
      exact hlast
    · rw [List.concat_eq_append, ← List.cons_append, ← List.append_assoc] at heq
      obtain ⟨hpre, -⟩ := List.append_inj' heq rfl
      exact hall pre y post' hpre

theorem Consistent.mono {xs ys : List Stimulus} (h : Consistent ys) (hp : xs <+: ys) :
    Consistent xs := by
  obtain ⟨r, rfl⟩ := hp
  exact fun pre x post heq => h pre x (post ++ r) (by simp [heq])

theorem consistent_iff (xs : List Stimulus) :
    Consistent xs ↔ conflicts (fun _ => none) (reportedAccesses xs) = [] := by
  induction xs using List.reverseRecOn with
  | nil => simp [Consistent, reportedAccesses, reportedFrom, conflicts]
  | append_singleton xs x ih =>
    have href (a : Nat) : replay (fun _ => none) (reportedAccesses xs) a =
        reference (reportedAccesses xs) a := FilledMemory.replay_eq_reference _ a
    rw [consistent_concat, reportedAccesses_concat, FilledMemory.conflicts_append,
      List.append_eq_nil_iff, ih, and_congr_right_iff]
    intro _
    cases hr : x.1.val.read with
    | true =>
      simp only [Stimulus.reported, hr, if_true, true_imp_iff, FilledMemory.conflicts_touches, href]
      rfl
    | false =>
      simp [Stimulus.reported, hr, FilledMemory.conflicts_writes]

theorem score_spec (ps : List Packet) (h : ∀ p ∈ ps, p.write = !p.read) :
    (score ps).memExpected = replay (fun _ => none) (ps.flatMap Packet.accesses) ∧
      (score ps).mismatches = (conflicts (fun _ => none) (ps.flatMap Packet.accesses)).map
        UbusScoreboard.mismatch := by
  induction ps using List.reverseRecOn with
  | nil => exact ⟨rfl, rfl⟩
  | append_singleton ps p ih =>
    obtain ⟨hmem, hmis⟩ := ih fun q hq => h q (by simp [hq])
    obtain ⟨hmem', hmis'⟩ := UbusScoreboard.report_spec (h p (by simp)) (score ps)
    rw [score_concat, hmem', hmis', hmem, hmis]
    simp [FilledMemory.conflicts_append]

theorem after_byte (hist : List Stimulus) (x : Stimulus) {i : Nat} (hi : i < x.1.val.size) :
    (Transfer.after hist x).byte i = x.byte hist i := by
  rw [Stimulus.byte]
  cases hr : x.1.val.read with
  | true =>
    rw [Transfer.after_byte_read hr hi, if_pos rfl]
    exact congrArg (fun v : Option Word => (v.getD 0).setWidth 8) (FilledMemory.replay_eq_reference _ _)
  | false => rw [Transfer.after_byte_write hr, if_neg Bool.false_ne_true]

theorem byte_of_written {hist : List Stimulus} {x : Stimulus} (hr : x.1.val.read = true) {i : Nat}
    (hi : i < x.1.val.size) (h : Written hist (x.1.val.addr.toNat + i)) : x.byte hist i = 0 := by
  rw [← after_byte hist x hi, Transfer.after_byte_eq_zero hr hi]
  exact h

theorem after_sampled (hist : List Stimulus) (x : Stimulus) {i : Nat} (hi : i < x.1.val.size) :
    (Transfer.after hist x).sampled hist.isEmpty i = x.shifted hist i := by
  have hsize : (Transfer.after hist x).size = x.1.val.size := rfl
  simp only [Transfer.sampled, Stimulus.shifted]
  rw [hsize, after_byte hist x hi]
  simp only [List.isEmpty_iff]
  split
  · rfl
  · split
    · rw [after_byte hist x (by assumption)]
    · rfl

theorem after_accesses (hist : List Stimulus) (x : Stimulus) :
    ((Transfer.after hist x).report hist.isEmpty).accesses = x.reported hist := by
  have hspan : ((Transfer.after hist x).report hist.isEmpty).span = x.1.val.span := rfl
  have hbyte : ∀ a ∈ x.1.val.span,
      ((Transfer.after hist x).report hist.isEmpty).byteAt a = x.shiftedAt hist a := by
    intro a ha
    have hi : a - x.1.val.addr.toNat < x.1.val.size := by
      have := (x.1.val.mem_span a).mp ha
      omega
    rw [Stimulus.shiftedAt, ← after_sampled hist x hi, ← Transfer.report_byte _ _ hi]
    rfl
  have hw : ((Transfer.after hist x).report hist.isEmpty).write = !x.1.val.read := x.1.write_eq
  simp only [Packet.accesses, Stimulus.reported]
  rw [hspan, hw]
  cases x.1.val.read with
  | true => exact List.map_congr_left fun a ha => by rw [hbyte a ha]
  | false => exact List.map_congr_left fun a ha => by rw [hbyte a ha]

theorem reports_accesses (xs : List Stimulus) :
    (reports (transfers xs)).flatMap Packet.accesses = reportedAccesses xs := by
  induction xs using List.reverseRecOn with
  | nil => rfl
  | append_singleton xs x ih =>
    have hempty : (transfers xs).isEmpty = xs.isEmpty := by
      rw [Bool.eq_iff_iff, List.isEmpty_iff_length_eq_zero, List.isEmpty_iff_length_eq_zero,
        length_transfers]
    rw [transfers_concat, reports_concat, List.flatMap_append, ih, reportedAccesses_concat, hempty]
    simp [after_accesses]

theorem reports_dir (ts : List Transfer) : ∀ p ∈ reports ts, p.write = !p.read := by
  induction ts using List.reverseRecOn with
  | nil => simp
  | append_singleton ts t ih =>
    intro p hp
    rw [reports_concat, List.mem_append, List.mem_singleton] at hp
    rcases hp with hp | rfl
    · exact ih p hp
    · exact report_dir _ t

def reportedStimuli (env : Env) (k : Nat) : List Stimulus :=
  (stimuli env.draw (Testbench.run env k).driven).take (Testbench.run env k).masterCollected.length

theorem reportedStimuli_eq (env : Env) (k : Nat) :
    (Timeline.run env k).reported = transfers (reportedStimuli env k) := by
  have hs := run_follows env k
  have hrec := Timeline.run_recorded env k
  have hprefix := (Timeline.run env k).reported_prefix_opened
  have hlen : (Testbench.run env k).masterCollected.length = (Timeline.run env k).reported.length := by
    rw [hs.published.masterCollected]
    exact reportsFrom_length true _
  have hopen : stimuli env.draw ((Timeline.run env k).opened.map (·.item)) <+:
      stimuli env.draw (Testbench.run env k).driven := by
    rw [hs.driven]
    exact stimuli_mono env.draw (List.prefix_append _ _)
  have htake : (Timeline.run env k).reported <+:
      transfers (stimuli env.draw ((Timeline.run env k).opened.map (·.item))) := by
    rw [← hrec.opened]
    exact hprefix
  rw [transfers_take htake, reportedStimuli, hlen]
  obtain ⟨r, hr⟩ := hopen
  rw [← hr, List.take_append_of_le_length]
  simpa using hprefix.length_le

theorem mismatches_eq_nil_iff (env : Env) (k : Nat) :
    (Testbench.run env k).scoreboard.mismatches = [] ↔ Consistent (reportedStimuli env k) := by
  have hs := run_follows env k
  have hspec := (score_spec _ (reports_dir (Timeline.run env k).reported)).2
  rw [hs.published.scoreboard]
  change (score (reports (Timeline.run env k).reported)).mismatches = [] ↔ _
  rw [hspec, reportedStimuli_eq, reports_accesses, List.map_eq_nil_iff, consistent_iff]

theorem driven_reported (env : Env) (k : Nat) :
    ∃ m, stimuli env.draw (Testbench.run env k).driven <+: reportedStimuli env m := by
  obtain ⟨n, hn⟩ := run_settles env k
  let m := max n k
  have hgrow := (Testbench.run_grows env (show k ≤ m by omega)).driven
  have hlen := (hn m (by omega)).masterCollected.length_le
  simp only [itemHeaders, headers, List.length_map] at hlen
  have hdriven := hgrow.length_le
  have htake : reportedStimuli env m <+: stimuli env.draw (Testbench.run env m).driven :=
    List.take_prefix _ _
  refine ⟨m, List.prefix_of_prefix_length_le (stimuli_mono env.draw hgrow) htake ?_⟩
  simp [reportedStimuli, hlen, hdriven]

theorem scoreboard_clean_iff (env : Env) :
    (∀ k, (Testbench.run env k).scoreboard.mismatches = []) ↔
      ∀ k, Consistent (stimuli env.draw (Testbench.run env k).driven) := by
  simp only [mismatches_eq_nil_iff]
  constructor
  · intro h k
    obtain ⟨m, hm⟩ := driven_reported env k
    exact (h m).mono hm
  · intro h k
    have htake : reportedStimuli env k <+: stimuli env.draw (Testbench.run env k).driven :=
      List.take_prefix _ _
    exact (h k).mono htake

theorem exists_shifted {hist : List Stimulus} {x : Stimulus} (hw : ¬x.1.val.read = true) {j : Nat}
    (hj : j < x.1.val.size) (hseen : hist = [] ∨ 0 < j) :
    ∃ i < x.1.val.size, x.shifted hist i = x.1.val.byte j := by
  by_cases hnil : hist = []
  · exact ⟨j, hj, by rw [Stimulus.shifted, if_pos hnil, Stimulus.byte, if_neg hw]⟩
  · have hpos := hseen.resolve_left hnil
    have hnext : j - 1 + 1 = j := by omega
    refine ⟨j - 1, by omega, ?_⟩
    rw [Stimulus.shifted, if_neg hnil, hnext, if_pos hj, Stimulus.byte, if_neg hw]

theorem reference_of_write (hist : List Stimulus) {x : Stimulus} (hw : ¬x.1.val.read = true)
    {i : Nat} (hi : i < x.1.val.size) :
    reference (reportedAccesses (hist ++ [x])) (x.1.val.addr.toNat + i) =
      some ((x.shifted hist i).setWidth 32) := by
  have hspan : x.1.val.addr.toNat + i ∈ x.1.val.span := (x.1.val.mem_span _).mpr (by omega)
  rw [reportedAccesses_concat, Stimulus.reported, if_neg hw, reference,
    FilledMemory.lastWrite_append, FilledMemory.lastWrite_writes, if_pos hspan, Stimulus.shiftedAt,
    Nat.add_sub_cancel_left]
  rfl

theorem shiftedAt_of_written {hist : List Stimulus} {x : Stimulus} (hr : x.1.val.read = true)
    (hne : hist ≠ []) (h : ∀ i < x.1.val.size, Written hist (x.1.val.addr.toNat + i)) (a : Nat) :
    x.shiftedAt hist a = 0 := by
  rw [Stimulus.shiftedAt, Stimulus.shifted, if_neg hne]
  split
  · rename_i hi
    rw [byte_of_written hr hi (h _ hi)]
    rfl
  · rfl

-- a write whose bytes are read back at once: the slave has stored zeros for them, and the
-- scoreboard expects the ones the monitors have seen
theorem mismatch_of_readBack {env : Env} {k : Nat} {pre post : List Item} {w r : Item}
    (hdriven : (Testbench.run env k).driven = pre ++ w :: r :: post) (hw : w.val.write = true)
    (hr : r.val.read = true) (haddr : r.val.addr = w.val.addr) (hsize : r.val.size = w.val.size)
    {j : Nat} (hj : j < w.val.size) (hseen : pre = [] ∨ 0 < j) (hbyte : w.val.byte j ≠ 0) :
    ∃ m, (Testbench.run env m).scoreboard.mismatches ≠ [] := by
  obtain ⟨m, hm⟩ := driven_reported env k
  refine ⟨m, fun hclean => hbyte ?_⟩
  have hcons := ((mismatches_eq_nil_iff env m).mp hclean).mono hm
  let before := stimuli env.draw pre
  let x : Stimulus := (w, env.draw pre.length)
  let y : Stimulus := (r, env.draw (pre ++ [w]).length)
  have hprefix : before ++ [x] ++ [y] <+: stimuli env.draw (Testbench.run env k).driven := by
    rw [hdriven, ← stimuli_concat, ← stimuli_concat]
    exact stimuli_mono env.draw ⟨post, by simp⟩
  have hlast := ((consistent_concat _ _).mp (hcons.mono hprefix)).2 hr
  have hwrite : ¬x.1.val.read = true := by
    rw [w.read_of_write hw]
    decide
  have hbefore : before = [] ∨ 0 < j := hseen.imp_left fun hpre => by simp [before, hpre, stimuli]
  obtain ⟨i, hi, hshift⟩ := exists_shifted (x := x) hwrite hj hbefore
  have hexpected := reference_of_write before hwrite hi
  have hi' : i < w.val.size := hi
  have hcov : Covers r (w.val.addr.toNat + i) := by
    rw [← haddr]
    exact (r.val.mem_span _).mpr (by omega)
  have hsame := hlast _ hcov _ hexpected
  have hread : y.shiftedAt (before ++ [x]) (w.val.addr.toNat + i) = 0 := by
    refine shiftedAt_of_written hr (by simp) (fun n hn => ⟨x, by simp, hw, ?_⟩) _
    have hn' : n < r.val.size := hn
    rw [haddr]
    exact (w.val.mem_span _).mpr (by omega)
  rw [hshift, hread] at hsame
  exact (setWidth_eq_zero _).mp hsame

theorem writeThenRead_mismatch :
    ¬∀ k, (Testbench.run .writeThenRead k).scoreboard.mismatches = [] := by
  intro h
  have hfound : (Testbench.run .writeThenRead 15).scoreboard.mismatches =
      [⟨0x10, 0x5a, 0⟩, ⟨0x11, 0xa5, 0⟩] := by decide
  exact absurd (hfound.symm.trans (h 15)) (by decide)

end UbusVip
