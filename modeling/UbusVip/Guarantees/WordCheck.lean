import UbusVip.Guarantees.Completion
import UbusVip.Guarantees.Pairing
import UbusVip.Guarantees.Storage
import UbusVip.Guarantees.Verdict

namespace UbusVip

open Interaction (Prog)
open SlaveSequence (Draw)
open FilledMemory (lastWrite reference)
open MasterSeq

def IsWord (i : Nat) (req : Packet) : Prop :=
  req.addr.toNat = 4 * i ∧ req.read = false ∧ req.write = true ∧ req.size = 4 ∧ req.data.length = 4

theorem satisfiable_word {i : Nat} (hi : i < 16384) : Satisfiable (IsWord i) := by
  let req : Packet :=
    { Packet.create with addr := .ofNat 16 (4 * i), write := true, size := 4, data := [0, 0, 0, 0] }
  have haddr : req.addr.toNat = 4 * i := by
    simp only [req, BitVec.toNat_ofNat]
    omega
  exact ⟨req, ⟨rfl, by simp [req], rfl⟩, fun h => absurd h.2 (by simp [req]), haddr, rfl, rfl, rfl, rfl⟩

def readItem (i : Nat) : Item := ⟨readWord i, rfl, by simp [readWord], rfl⟩

def Words (ws : List Item) : Prop := ∀ i tr, ws[i]? = some tr → IsWord i tr.val

theorem words_concat (ws : List Item) (tr : Item) :
    Words (ws ++ [tr]) ↔ Words ws ∧ IsWord ws.length tr.val := by
  constructor
  · intro h
    refine ⟨fun i u hi => h i u ?_, h _ tr List.getElem?_concat_length⟩
    rw [List.getElem?_append_left (List.getElem?_eq_some_iff.mp hi).1]
    exact hi
  · rintro ⟨h, htr⟩ i u hi
    rcases Nat.lt_trichotomy i ws.length with hlt | rfl | hgt
    · exact h i u (by rwa [List.getElem?_append_left hlt] at hi)
    · rw [List.getElem?_concat_length, Option.some_inj] at hi
      exact hi ▸ htr
    · rw [List.getElem?_eq_none (by simp; omega)] at hi
      cases hi

namespace MasterSeq

variable {r : Randomizer} {e : Platform} {m : Moment Op Res}

theorem run_writeWord {n : Nat} (hn : n ≤ 16384) (hm : m.account.items = []) :
    Words ((ubusMasterWriteWordSeq n).run (handle r e) m).2.account.items ∧
      ((ubusMasterWriteWordSeq n).run (handle r e) m).2.account.items.length = n := by
  rw [ubusMasterWriteWordSeq, Prog.run_bind]
  refine Prog.run_forM_range (P := fun i m => Words m.account.items ∧ m.account.items.length = i)
    (handle r e) (f := fun i => doWith (IsWord i)) ?_ ?_
  · rw [hm]
    exact ⟨nofun, rfl⟩
  · rintro i hi m ⟨hwords, hlen⟩
    have hsat : Satisfiable (IsWord i) := satisfiable_word (by omega)
    have hstep : ((doWith (IsWord i)).run (handle r e) m).2.account.items =
        m.account.items ++ [r.item m.account.items.length hsat] := items_doWith hsat
    rw [hstep, words_concat, List.length_append, hlen]
    exact ⟨⟨hwords, (r.sound i _ hsat).2.2⟩, rfl⟩

theorem run_readWord (n : Nat) :
    ((ubusMasterReadWordSeq n).run (handle r e) m).2.account.items =
      m.account.items ++ (List.range n).map readItem := by
  refine Prog.run_forM_range
    (P := fun i m' => m'.account.items = m.account.items ++ (List.range i).map readItem)
    (handle r e) (List.append_nil _).symm ?_
  intro i _ m' h
  have hstep := items_finishItem (r := r) (e := e) (m := m') (readItem i).property
  rw [List.range_succ, List.map_append, ← List.append_assoc, ← h]
  exact hstep

theorem run_wordCheck {n : Nat} (hn : n ≤ 16384) (hm : m.account.items = []) :
    ∃ ws, Words ws ∧ ws.length = n ∧
      ((ubusMasterWriteWordSeq n >>= fun _ => ubusMasterReadWordSeq n).run
          (handle r e) m).2.account.items = ws ++ (List.range n).map readItem := by
  obtain ⟨hwords, hlen⟩ := run_writeWord (r := r) (e := e) hn hm
  exact ⟨_, hwords, hlen, by rw [Prog.run_bind, run_readWord]⟩

theorem fed_wordCheck {n : Nat} (hn : n ≤ 16384) :
    Fed (client r) (ubusMasterWriteWordSeq n >>= fun _ => ubusMasterReadWordSeq n) := by
  have hwrite : Fed (client r) ((List.range n).forM fun i => doWith (IsWord i)) :=
    .forM fun i hi => fed_doWith (satisfiable_word ((List.mem_range.mp hi).trans_le hn))
  have hedges : Fed (client r) (edges 10) := .alone (fun _ => id) fun _ _ _ => .ret _
  exact (hwrite.bind fun _ => hedges).bind fun _ => (paired_readWord n).fed

end MasterSeq

-- the byte the monitors report at an address of the word area: every word but the first one is
-- seen one place late
def echo (ws : List Item) (a : Nat) : Byte :=
  let p := (ws[a / 4]?.map (·.val)).getD .create
  if a < 4 then p.byte a else if a % 4 < 3 then p.byte (a % 4 + 1) else 0

theorem echo_append {ws us : List Item} {a : Nat} (h : a < 4 * ws.length) :
    echo (ws ++ us) a = echo ws a := by
  rw [echo, echo, List.getElem?_append_left (by omega)]

theorem IsWord.mem_span {i : Nat} {p : Packet} (h : IsWord i p) (a : Nat) :
    a ∈ p.span ↔ a / 4 = i := by
  rw [p.mem_span, h.1, h.2.2.2.1]
  omega

theorem shiftedAt_word (draw : Nat → Draw) {ws : List Item} {tr : Item} (h : IsWord ws.length tr.val)
    {a : Nat} (ha : a / 4 = ws.length) :
    Stimulus.shiftedAt (stimuli draw ws) (tr, draw ws.length) a =
      (echo (ws ++ [tr]) a).setWidth 32 := by
  obtain ⟨haddr, hread, -, hsize, -⟩ := h
  have hempty : stimuli draw ws = [] ↔ a < 4 := by
    rw [← List.length_eq_zero_iff, length_stimuli]
    omega
  have hget : (ws ++ [tr])[a / 4]? = some tr := by rw [ha, List.getElem?_concat_length]
  have hoff : a - 4 * ws.length = a % 4 := by omega
  simp only [Stimulus.shiftedAt, Stimulus.shifted, Stimulus.byte, hread, haddr, hsize, hempty, echo,
    hget, hoff, Option.map_some, Option.getD_some, Bool.false_eq_true, if_false]
  congr 1
  split
  · rw [Nat.mod_eq_of_lt (by assumption)]
  · refine if_congr ?_ rfl rfl
    omega

theorem lastWrite_words (draw : Nat → Draw) {ws : List Item} (h : Words ws) (a : Nat) :
    lastWrite (reportedAccesses (stimuli draw ws)) a =
      if a < 4 * ws.length then some ((echo ws a).setWidth 32) else none := by
  induction ws using List.reverseRecOn with
  | nil => rfl
  | append_singleton ws tr ih =>
    obtain ⟨hwords, hword⟩ := (words_concat ws tr).mp h
    have hread : ¬tr.val.read = true := by rw [hword.2.1]; decide
    have hlen : (ws ++ [tr]).length = ws.length + 1 := List.length_append
    rw [stimuli_concat, reportedAccesses_concat, Stimulus.reported, if_neg hread,
      FilledMemory.lastWrite_append, FilledMemory.lastWrite_writes, ih hwords, hlen]
    simp only [hword.mem_span]
    by_cases ha : a / 4 = ws.length
    · have hlt : a < 4 * (ws.length + 1) := by omega
      rw [if_pos ha, if_pos hlt, shiftedAt_word draw hword ha]
      rfl
    · have hiff : a < 4 * (ws.length + 1) ↔ a < 4 * ws.length := by omega
      rw [if_neg ha, Option.none_or]
      simp only [hiff]
      split
      · rw [echo_append (by assumption)]
      · rfl

def afterWords (ws : List Item) (m : Nat) : List Item := ws ++ (List.range m).map readItem

theorem afterWords_succ (ws : List Item) (m : Nat) :
    afterWords ws (m + 1) = afterWords ws m ++ [readItem m] := by
  rw [afterWords, List.range_succ, List.map_append, ← List.append_assoc]
  rfl

theorem IsWord.lt {i : Nat} {p : Packet} (h : IsWord i p) : i < 16384 := by
  have haddr := h.1
  have hlt := p.addr.isLt
  omega

theorem readItem_addr {m : Nat} (hm : m < 16384) : (readItem m).val.addr.toNat = 4 * m := by
  simp only [readItem, readWord, BitVec.toNat_ofNat]
  omega

theorem readItem_span {m : Nat} (hm : m < 16384) (a : Nat) :
    a ∈ (readItem m).val.span ↔ a / 4 = m := by
  rw [Packet.mem_span, readItem_addr hm, show (readItem m).val.size = 4 from rfl]
  omega

theorem lastWrite_afterWords (draw : Nat → Draw) (ws : List Item) (m a : Nat) :
    lastWrite (reportedAccesses (stimuli draw (afterWords ws m))) a =
      lastWrite (reportedAccesses (stimuli draw ws)) a := by
  induction m with
  | zero => rw [afterWords, List.range_zero, List.map_nil, List.append_nil]
  | succ m ih =>
    have hread : (readItem m).val.read = true := rfl
    rw [afterWords_succ, stimuli_concat, reportedAccesses_concat, Stimulus.reported, if_pos hread,
      FilledMemory.lastWrite_append, FilledMemory.lastWrite_touches, Option.none_or, ih]

theorem reference_afterWords (draw : Nat → Draw) {ws : List Item} (h : Words ws) {m a : Nat}
    (ha : a < 4 * ws.length) :
    reference (reportedAccesses (stimuli draw (afterWords ws m))) a =
      some ((echo ws a).setWidth 32) := by
  rw [reference, lastWrite_afterWords, lastWrite_words draw h, if_pos ha]
  rfl

-- the slave has stored zeros for every word, and a read is never the first transfer
theorem shiftedAt_readItem (draw : Nat → Draw) {ws : List Item} (h : Words ws) {m : Nat}
    (hm : m < ws.length) (d : Draw) (a : Nat) :
    Stimulus.shiftedAt (stimuli draw (afterWords ws m)) (readItem m, d) a = 0 := by
  have hword := h m _ (List.getElem?_eq_getElem hm)
  have hne : stimuli draw (afterWords ws m) ≠ [] := by
    rw [← List.length_pos_iff_ne_nil, length_stimuli, afterWords, List.length_append]
    omega
  refine shiftedAt_of_written rfl hne (fun j hj => ?_) a
  rw [written_iff, stimuli_fst]
  refine ⟨ws[m], List.mem_append_left _ (List.getElem_mem hm), hword.2.2.1, ?_⟩
  have hj' : j < 4 := hj
  rw [Covers, hword.mem_span, readItem_addr hword.lt]
  omega

theorem consistent_words (draw : Nat → Draw) {ws : List Item} (h : Words ws) :
    Consistent (stimuli draw ws) := by
  intro pre x post heq hread
  have hmem : x.1 ∈ ws := by
    rw [← stimuli_fst draw ws, heq]
    exact List.mem_map_of_mem (List.mem_append_right _ List.mem_cons_self)
  obtain ⟨i, hi⟩ := List.mem_iff_getElem?.mp hmem
  rw [(h i x.1 hi).2.1] at hread
  cases hread

theorem consistent_afterWords (draw : Nat → Draw) {ws : List Item} (h : Words ws) {m : Nat}
    (hm : m ≤ ws.length) :
    Consistent (stimuli draw (afterWords ws m)) ↔ ∀ a < 4 * m, echo ws a = 0 := by
  induction m with
  | zero =>
    rw [afterWords, List.range_zero, List.map_nil, List.append_nil]
    exact iff_of_true (consistent_words draw h) (by simp)
  | succ m ih =>
    have hword := h m _ (List.getElem?_eq_getElem hm)
    have hlast : (∀ a, Covers (readItem m) a → ∀ v, reference (reportedAccesses
          (stimuli draw (afterWords ws m))) a = some v → v = Stimulus.shiftedAt
            (stimuli draw (afterWords ws m)) (readItem m, draw (afterWords ws m).length) a) ↔
        ∀ a, a / 4 = m → echo ws a = 0 := by
      refine forall_congr' fun a => ?_
      rw [Covers, readItem_span hword.lt]
      refine imp_congr_right fun ha => ?_
      rw [reference_afterWords draw h (by omega), shiftedAt_readItem draw h hm, ← setWidth_eq_zero]
      constructor
      · exact fun hall => hall _ rfl
      · rintro hz _ ⟨⟩
        exact hz
    rw [afterWords_succ, stimuli_concat, consistent_concat, ih (by omega)]
    refine (and_congr_right fun _ => (forall_prop_of_true rfl).trans hlast).trans ?_
    constructor
    · rintro ⟨hall, hnew⟩ a ha
      rcases Nat.lt_or_ge a (4 * m) with hlt | hge
      · exact hall a hlt
      · exact hnew a (by omega)
    · exact fun hall => ⟨fun a ha => hall a (by omega), fun a ha => hall a (by omega)⟩

theorem echo_zero_iff {ws : List Item} :
    (∀ a < 4 * ws.length, echo ws a = 0) ↔
      ∀ i tr, ws[i]? = some tr → ∀ j < 4, i = 0 ∨ 0 < j → tr.val.byte j = 0 := by
  have hget {i j : Nat} {tr : Item} (hi : ws[i]? = some tr) (hj : j < 4) :
      echo ws (4 * i + j) = if i = 0 then tr.val.byte j else
        if j < 3 then tr.val.byte (j + 1) else 0 := by
    have hdiv : (4 * i + j) / 4 = i := by omega
    have hmod : (4 * i + j) % 4 = j := by omega
    have hfirst : 4 * i + j < 4 ↔ i = 0 := by omega
    rw [echo, hdiv, hmod, hi, Option.map_some, Option.getD_some]
    simp only [hfirst]
    split
    · rw [show i = 0 by assumption, Nat.mul_zero, Nat.zero_add]
    · rfl
  constructor
  · intro h i tr hi j hj hij
    have hlt := (List.getElem?_eq_some_iff.mp hi).1
    rcases Nat.eq_zero_or_pos i with rfl | hpos
    · have hbyte := hget hi hj
      rw [h _ (by omega), if_pos rfl] at hbyte
      exact hbyte.symm
    · have hbyte := hget hi (show j - 1 < 4 by omega)
      rw [h _ (by omega), if_neg (by omega), if_pos (by omega), Nat.sub_add_cancel (by omega)] at hbyte
      exact hbyte.symm
  · intro h a ha
    have hi := List.getElem?_eq_getElem (show a / 4 < ws.length by omega)
    have hbyte := hget hi (Nat.mod_lt a (by decide))
    rw [Nat.div_add_mod] at hbyte
    rw [hbyte]
    split
    · exact h _ _ hi _ (by omega) (.inl (by assumption))
    · split
      · exact h _ _ hi _ (by omega) (.inr (by omega))
      · rfl

theorem SequenceRun.silent_iff {Op : Type} {Res : Op → Type} {α : Type} (client : Client Op Res)
    (e : Platform) (p : Prog Op Res α) (k : Nat) :
    let s := (SequenceRun.run client e (.init UbusCoverage.init) p k).tb
    s.masterCollected.length = s.driven.length →
      (s.scoreboard.mismatches = [] ↔ Consistent (stimuli e.draw s.driven)) := by
  intro s hlen
  obtain ⟨env, hdraw, -, henv⟩ := SequenceRun.run_env client e p
  have hs : s = Testbench.run env k := henv k
  rw [hs] at hlen ⊢
  rw [mismatches_eq_nil_iff, reportedStimuli, hlen, hdraw,
    ← length_stimuli e.draw (Testbench.run env k).driven, List.take_length]

theorem echo_afterWords {ws : List Item} (n : Nat) :
    (∀ i tr, ws[i]? = some tr → ∀ j < 4, i = 0 ∨ 0 < j → tr.val.byte j = 0) ↔
      ∀ i < ws.length, ∀ tr, (afterWords ws n)[i]? = some tr →
        ∀ j < 4, i = 0 ∨ 0 < j → tr.val.byte j = 0 := by
  have hget (i : Nat) (hi : i < ws.length) : (afterWords ws n)[i]? = ws[i]? :=
    List.getElem?_append_left hi
  constructor
  · intro h i hi tr htr
    rw [hget i hi] at htr
    exact h i tr htr
  · intro h i tr htr
    have hi := (List.getElem?_eq_some_iff.mp htr).1
    rw [← hget i hi] at htr
    exact h i hi tr htr

theorem word_check_silent_iff (r : Randomizer) (e : Platform) {n : Nat} (hn : n ≤ 16384) :
    let c := SequenceRun.run (client r) e (.init UbusCoverage.init)
      (ubusMasterWriteWordSeq n >>= fun _ => ubusMasterReadWordSeq n)
    ∃ K, ∀ k, K ≤ k → (c k).blocked = .ended ∧ (c k).tb.driven.length = n + n ∧
      ((c k).tb.scoreboard.mismatches = [] ↔
        ∀ i < n, ∀ tr, (c k).tb.driven[i]? = some tr →
          ∀ j < 4, i = 0 ∨ 0 < j → tr.val.byte j = 0) := by
  intro c
  obtain ⟨ws, hwords, rfl, hitems⟩ := run_wordCheck (r := r) (e := e)
    (m := .start .init) hn rfl
  obtain ⟨K, hK⟩ := SequenceRun.run_drained e (fed_wordCheck (r := r) hn)
  refine ⟨K, fun k hk => ?_⟩
  obtain ⟨hdone, hcollected⟩ := hK k hk
  have hdriven : (c k).tb.driven = afterWords ws ws.length := by
    rw [hdone.driven, hitems]
    rfl
  refine ⟨hdone.ended, ?_, ?_⟩
  · rw [hdriven, afterWords, List.length_append, List.length_map, List.length_range]
  · rw [SequenceRun.silent_iff (client r) e _ k hcollected]
    change Consistent (stimuli e.draw (c k).tb.driven) ↔ _
    rw [hdriven, consistent_afterWords e.draw hwords le_rfl, echo_zero_iff, echo_afterWords]

theorem word_check_silent_iff_two :
    let e : Platform := ⟨fun _ => .fixed 0, fun _ => false, fun _ => false⟩
    ∃ k, (SequenceRun.run (client .any) e (.init UbusCoverage.init)
      (ubusMasterWriteWordSeq 2 >>= fun _ => ubusMasterReadWordSeq 2) k).tb.driven.length = 4 := by
  intro e
  obtain ⟨K, hK⟩ := word_check_silent_iff .any e (show 2 ≤ 16384 by decide)
  exact ⟨K, (hK K le_rfl).2.1⟩

end UbusVip
