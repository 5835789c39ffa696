import Mathlib.Logic.Relation
import UbusVip.Refinement.Run

namespace UbusVip.UbusScoreboard

open FilledMemory (Access replay conflicts Apart)

namespace Call

def packet : Call → Packet
  | .writeMaster p => p
  | .writeSlave p => p

def writes : Call → Word
  | .writeMaster p => if p.write then BitVec.ofNat 32 p.size else 0
  | .writeSlave _ => 0

def reads : Call → Word
  | .writeMaster _ => 0
  | .writeSlave p => if p.read then BitVec.ofNat 32 p.size else 0

theorem key_mem_span {c : Call} {a : Access Nat Word} (h : a ∈ c.accesses) :
    a.key ∈ c.packet.span := by
  cases c with
  | writeMaster p =>
    cases hw : p.write with
    | true =>
      rw [accesses, if_pos hw] at h
      exact (FilledMemory.key_writes p.byteAt _ _).mp ⟨a, h, rfl⟩
    | false => simp [accesses, hw] at h
  | writeSlave p =>
    cases hr : p.read with
    | true =>
      rw [accesses, if_pos hr] at h
      exact (FilledMemory.key_touches p.byteAt _ _).mp ⟨a, h, rfl⟩
    | false => simp [accesses, hr] at h

theorem apart {c d : Call} (h : ∀ a ∈ c.packet.span, a ∉ d.packet.span) :
    Apart c.accesses d.accesses := by
  intro a ha b hb hkey
  exact h _ (key_mem_span ha) (hkey ▸ key_mem_span hb)

end Call

inductive Exchangeable : Call → Call → Prop where
  | masterFirst {p : Packet} (hd : (p.read ^^ p.write) = true) :
      Exchangeable (.writeMaster p) (.writeSlave p)
  | slaveFirst {p : Packet} (hd : (p.read ^^ p.write) = true) :
      Exchangeable (.writeSlave p) (.writeMaster p)
  | disjoint {c d : Call} (h : ∀ a ∈ c.packet.span, a ∉ d.packet.span) : Exchangeable c d

inductive Swap : List Call → List Call → Prop where
  | adjacent (pre post : List Call) {c d : Call} (h : Exchangeable c d) :
      Swap (pre ++ c :: d :: post) (pre ++ d :: c :: post)

structure SameVerdict (s t : UbusScoreboard) : Prop where
  memExpected : s.memExpected = t.memExpected
  numWrites : s.numWrites = t.numWrites
  numReads : s.numReads = t.numReads
  mismatches : s.mismatches.Perm t.mismatches

theorem SameVerdict.refl (s : UbusScoreboard) : SameVerdict s s := ⟨rfl, rfl, rfl, .refl _⟩

theorem SameVerdict.trans {s t u : UbusScoreboard} (h : SameVerdict s t) (g : SameVerdict t u) :
    SameVerdict s u where
  memExpected := h.memExpected.trans g.memExpected
  numWrites := h.numWrites.trans g.numWrites
  numReads := h.numReads.trans g.numReads
  mismatches := h.mismatches.trans g.mismatches

theorem foldl_masterByte_counts {p : Packet} (hw : p.write = true) (sb : UbusScoreboard) (n : Nat) :
    ((List.range n).foldl (masterByte p) sb).numWrites = sb.numWrites + BitVec.ofNat 32 n ∧
      ((List.range n).foldl (masterByte p) sb).numReads = sb.numReads := by
  induction n with
  | zero => exact ⟨(BitVec.add_zero _).symm, rfl⟩
  | succ n ih =>
    obtain ⟨hwrites, hreads⟩ := ih
    rw [List.range_succ, List.foldl_append, List.foldl_cons, List.foldl_nil, BitVec.ofNat_add,
      ← BitVec.add_assoc, ← hwrites, ← hreads]
    simp [masterByte, hw]

theorem slaveByte_counts {p : Packet} (hr : p.read = true) (sb : UbusScoreboard) (i : Nat) :
    (slaveByte p sb i).numWrites = sb.numWrites ∧ (slaveByte p sb i).numReads = sb.numReads + 1 := by
  simp only [slaveByte, hr, if_true]
  split
  · split <;> exact ⟨rfl, rfl⟩
  · exact ⟨rfl, rfl⟩

theorem foldl_slaveByte_counts {p : Packet} (hr : p.read = true) (sb : UbusScoreboard) (n : Nat) :
    ((List.range n).foldl (slaveByte p) sb).numWrites = sb.numWrites ∧
      ((List.range n).foldl (slaveByte p) sb).numReads = sb.numReads + BitVec.ofNat 32 n := by
  induction n with
  | zero => exact ⟨rfl, (BitVec.add_zero _).symm⟩
  | succ n ih =>
    obtain ⟨hwrites, hreads⟩ := ih
    obtain ⟨hwrites', hreads'⟩ := slaveByte_counts hr ((List.range n).foldl (slaveByte p) sb) n
    rw [List.range_succ, List.foldl_append, List.foldl_cons, List.foldl_nil, hwrites', hreads',
      hwrites, hreads, BitVec.ofNat_add, BitVec.add_assoc]
    exact ⟨rfl, rfl⟩

theorem call_counts (sb : UbusScoreboard) (c : Call) :
    (sb.call c).numWrites = sb.numWrites + c.writes ∧
      (sb.call c).numReads = sb.numReads + c.reads := by
  cases c with
  | writeMaster p =>
    cases hw : p.write with
    | true =>
      obtain ⟨hwrites, hreads⟩ := foldl_masterByte_counts hw sb p.size
      exact ⟨by rw [Call.writes, if_pos hw]; exact hwrites, hreads.trans (BitVec.add_zero _).symm⟩
    | false => simp [call, writeMaster_read hw, Call.writes, Call.reads, hw]
  | writeSlave p =>
    cases hr : p.read with
    | true =>
      obtain ⟨hwrites, hreads⟩ := foldl_slaveByte_counts hr sb p.size
      exact ⟨hwrites.trans (BitVec.add_zero _).symm, by rw [Call.reads, if_pos hr]; exact hreads⟩
    | false => simp [call, writeSlave_write hr, Call.writes, Call.reads, hr]

theorem SameVerdict.call {s t : UbusScoreboard} (h : SameVerdict s t) (c : Call) :
    SameVerdict (s.call c) (t.call c) where
  memExpected := by rw [(s.call_spec c).1, (t.call_spec c).1, h.memExpected]
  numWrites := by rw [(s.call_counts c).1, (t.call_counts c).1, h.numWrites]
  numReads := by rw [(s.call_counts c).2, (t.call_counts c).2, h.numReads]
  mismatches := by
    rw [(s.call_spec c).2, (t.call_spec c).2, h.memExpected]
    exact h.mismatches.append_right _

theorem SameVerdict.calls {s t : UbusScoreboard} (h : SameVerdict s t) (cs : List Call) :
    SameVerdict (cs.foldl .call s) (cs.foldl .call t) := by
  induction cs generalizing s t with
  | nil => exact h
  | cons c cs ih => exact ih (h.call c)

theorem same_packet {p : Packet} (hd : (p.read ^^ p.write) = true) (sb : UbusScoreboard) :
    (sb.writeMaster p).writeSlave p = (sb.writeSlave p).writeMaster p := by
  cases hr : p.read with
  | true =>
    have hw : p.write = false := by simpa [hr] using hd
    rw [writeMaster_read hw, writeMaster_read hw]
  | false => rw [writeSlave_write hr, writeSlave_write hr]

theorem disjoint_calls {c d : Call} (h : ∀ a ∈ c.packet.span, a ∉ d.packet.span)
    (sb : UbusScoreboard) : SameVerdict ((sb.call c).call d) ((sb.call d).call c) := by
  have hcd := Call.apart h
  have hdc := Call.apart fun a ha hb => h a hb ha
  constructor
  · rw [(call_spec _ d).1, (call_spec _ c).1, (call_spec _ c).1, (call_spec _ d).1]
    exact FilledMemory.replay_comm hcd _
  · rw [(call_counts _ d).1, (call_counts _ c).1, (call_counts _ c).1, (call_counts _ d).1,
      BitVec.add_assoc, BitVec.add_comm c.writes, ← BitVec.add_assoc]
  · rw [(call_counts _ d).2, (call_counts _ c).2, (call_counts _ c).2, (call_counts _ d).2,
      BitVec.add_assoc, BitVec.add_comm c.reads, ← BitVec.add_assoc]
  · rw [(call_spec _ d).2, (call_spec _ c).2, (call_spec _ c).2, (call_spec _ d).2,
      (call_spec _ c).1, (call_spec _ d).1, FilledMemory.conflicts_replay hcd,
      FilledMemory.conflicts_replay hdc, List.append_assoc, List.append_assoc]
    exact List.perm_append_comm.append_left _

theorem Exchangeable.sameVerdict {c d : Call} (h : Exchangeable c d) (sb : UbusScoreboard) :
    SameVerdict ((sb.call c).call d) ((sb.call d).call c) := by
  cases h with
  | masterFirst hd => simpa only [call, same_packet hd] using SameVerdict.refl _
  | slaveFirst hd => simpa only [call, same_packet hd] using SameVerdict.refl _
  | disjoint hdis => exact disjoint_calls hdis sb

theorem Swap.sameVerdict {cs ds : List Call} (h : Swap cs ds) :
    SameVerdict (calls cs) (calls ds) := by
  obtain ⟨pre, post, hex⟩ := h
  simp only [UbusScoreboard.calls, List.foldl_append, List.foldl_cons]
  exact (hex.sameVerdict _).calls post

theorem score_calls (ps : List Packet) :
    score ps = calls (ps.flatMap fun p => [.writeMaster p, .writeSlave p]) := by
  rw [calls, List.foldl_flatMap]
  rfl

theorem run_calls (env : Env) (k : Nat) :
    (Testbench.run env k).scoreboard =
      calls ((Testbench.run env k).masterCollected.flatMap fun p =>
        [.writeMaster p, .writeSlave p]) := by
  have hpublished := (run_follows env k).published
  rw [hpublished.scoreboard, hpublished.masterCollected]
  exact score_calls _

theorem rearranged_sameVerdict {cs ds : List Call} (h : Relation.ReflTransGen Swap cs ds) :
    SameVerdict (calls cs) (calls ds) := by
  induction h with
  | refl => exact .refl _
  | tail _ hswap ih => exact ih.trans hswap.sameVerdict

theorem rearranged_sameVerdict_wordWrite :
    let far : Packet := { wordRead.val with addr := 0x20 }
    SameVerdict (calls [.writeMaster wordWrite, .writeSlave wordWrite, .writeSlave far])
      (calls [.writeSlave wordWrite, .writeSlave far, .writeMaster wordWrite]) :=
  rearranged_sameVerdict
    (.tail (.single (.adjacent [] [_] (.masterFirst (by decide))))
      (.adjacent [_] [] (.disjoint (by decide))))

end UbusVip.UbusScoreboard
