import UbusVip.History

namespace UbusVip.SlaveSequence

open FilledMemory (replay reference)

def requestAccesses (x : Stimulus) : List (FilledMemory.Access Nat Word) := accesses x.1.val x.2

def memory (xs : List Stimulus) : Mem := xs.foldl (fun m x => (respond m x.1.val x.2).1) fun _ => none

def written (a : Nat) (x : Stimulus) : Option Byte :=
  if x.1.val.write ∧ Covers x.1 a then some (x.1.val.byte (a - x.1.val.addr.toNat)) else none

def filled (a : Nat) (x : Stimulus) : Option Byte :=
  if x.1.val.read ∧ Covers x.1 a then some ((fillAt x.1.val x.2 a).setWidth 8) else none

def lastWritten (xs : List Stimulus) (a : Nat) : Option Byte := xs.reverse.findSome? (written a)

def firstFill (xs : List Stimulus) (a : Nat) : Option Byte := xs.findSome? (filled a)

theorem lastWrite_request (x : Stimulus) (a : Nat) :
    (FilledMemory.lastWrite (requestAccesses x) a).map (·.setWidth 8) = written a x := by
  cases hr : x.1.val.read with
  | true =>
    have hw := x.1.write_of_read hr
    rw [requestAccesses, accesses_read hw, FilledMemory.lastWrite_touches]
    simp [written, hw]
  | false =>
    have hw := x.1.write_of_not_read hr
    rw [requestAccesses, accesses_write hw, FilledMemory.lastWrite_writes]
    by_cases hc : Covers x.1 a
    · simp [written, hw, hc, show a ∈ x.1.val.span from hc, Packet.byteAt]
    · simp [written, hw, hc, show a ∉ x.1.val.span from hc]

theorem firstTouch_request (x : Stimulus) (a : Nat) :
    (FilledMemory.firstTouch (requestAccesses x) a).map (·.setWidth 8) = filled a x := by
  cases hr : x.1.val.read with
  | true =>
    have hw := x.1.write_of_read hr
    rw [requestAccesses, accesses_read hw, FilledMemory.firstTouch_touches]
    by_cases hc : Covers x.1 a
    · simp [filled, hr, hc, show a ∈ x.1.val.span from hc]
    · simp [filled, hr, hc, show a ∉ x.1.val.span from hc]
  | false =>
    have hw := x.1.write_of_not_read hr
    rw [requestAccesses, accesses_write hw, FilledMemory.firstTouch_writes]
    simp [filled, hr]

theorem memory_concat (xs : List Stimulus) (x : Stimulus) :
    memory (xs ++ [x]) = (respond (memory xs) x.1.val x.2).1 := List.foldl_concat ..

theorem respond_replay (m : Mem) (x : Stimulus) :
    (respond m x.1.val x.2).1 = replay m (requestAccesses x) := respond_mem x.1.write_eq x.2 m

theorem memory_replay (xs : List Stimulus) :
    memory xs = replay FilledMemory.empty (xs.flatMap requestAccesses) := by
  induction xs using List.reverseRecOn with
  | nil => rfl
  | append_singleton xs x ih =>
    rw [memory_concat, respond_replay, ih, List.flatMap_append, List.flatMap_singleton,
      FilledMemory.replay_append]

theorem memory_byte (xs : List Stimulus) (a : Nat) :
    (memory xs a).map (·.setWidth 8) = (lastWritten xs a).or (firstFill xs a) := by
  rw [memory_replay, FilledMemory.replay_eq_reference, reference, Option.map_or,
    FilledMemory.lastWrite_flatMap, FilledMemory.firstTouch_flatMap, List.map_findSome?,
    List.map_findSome?]
  simp only [Function.comp_def, lastWrite_request, firstTouch_request]
  rfl

theorem lastWritten_concat_read (xs : List Stimulus) {x : Stimulus} (hr : x.1.val.read = true)
    (a : Nat) : lastWritten (xs ++ [x]) a = lastWritten xs a := by
  have hw := x.1.write_of_read hr
  simp [lastWritten, written, hw]

theorem respond_byte (xs : List Stimulus) {x : Stimulus} (hr : x.1.val.read = true) {i : Nat}
    (hi : i < x.1.val.size) :
    some ((respond (memory xs) x.1.val x.2).2.byte i) =
      (lastWritten xs (x.1.val.addr.toNat + i)).or
        (firstFill (xs ++ [x]) (x.1.val.addr.toNat + i)) := by
  have hcov : Covers x.1 (x.1.val.addr.toNat + i) := (x.1.val.mem_span _).mpr (by omega)
  have hmem := memory_byte (xs ++ [x]) (x.1.val.addr.toNat + i)
  rw [lastWritten_concat_read xs hr] at hmem
  have hsome : ((memory (xs ++ [x]) (x.1.val.addr.toNat + i)).map (·.setWidth 8 : Word → Byte)).isSome := by
    rw [hmem, firstFill, List.findSome?_append]
    simp [filled, hr, hcov]
  obtain ⟨v, hv⟩ := Option.isSome_iff_exists.mp (Option.isSome_map.symm.trans hsome)
  rw [respond_read_byte x.1.write_eq hr x.1.data_length x.2 _ hi, readByte, ← hmem, hv]
  change some (((replay (memory xs) (requestAccesses x) _).getD 0).setWidth 8) = _
  rw [← respond_replay, ← memory_concat, hv]
  rfl

theorem filled_range {a : Nat} {x : Stimulus} {b : Byte} (h : filled a x = some b) :
    0x10 ≤ b ∧ b ≤ 0xFF := by
  rw [filled] at h
  split at h
  · obtain rfl := Option.some_inj.mp h
    exact (x.2.fill _).byte_range
  · cases h

theorem firstFill_range {xs : List Stimulus} {a : Nat} {b : Byte} (h : firstFill xs a = some b) :
    0x10 ≤ b ∧ b ≤ 0xFF := by
  obtain ⟨x, -, hx⟩ := List.exists_of_findSome?_eq_some h
  exact filled_range hx

theorem respond_frame (xs : List Stimulus) (x : Stimulus) {a : Nat} (h : ¬Covers x.1 a) :
    (respond (memory xs) x.1.val x.2).1 a = memory xs a := by
  rw [respond_replay]
  apply FilledMemory.replay_of_not_mem
  rintro acc hacc rfl
  apply h
  rw [requestAccesses, accesses, List.mem_map] at hacc
  obtain ⟨i, hi, rfl⟩ := hacc
  rw [access_key]
  exact List.mem_map_of_mem hi

theorem respond_header (m : Mem) (x : Stimulus) :
    let rsp := (respond m x.1.val x.2).2
    rsp.addr = x.1.val.addr ∧ rsp.size = x.1.val.size ∧ rsp.read = x.1.val.read ∧
      rsp.write = x.1.val.write ∧ rsp.data.length = x.1.val.size := by
  rw [respond_rsp x.1.write_eq]
  refine ⟨rfl, rfl, rfl, rfl, ?_⟩
  dsimp only
  split
  · exact (ArrayFill.length_fill ..).trans x.1.data_length
  · exact x.1.data_length

theorem byte_memory (xs : List Stimulus) (x : Stimulus) :
    let out := respond (memory xs) x.1.val x.2
    (x.1.val.read = true → ∀ i < x.1.val.size,
      some (out.2.byte i) = (lastWritten xs (x.1.val.addr.toNat + i)).or
        (firstFill (xs ++ [x]) (x.1.val.addr.toNat + i))) ∧
      (∀ a b, firstFill (xs ++ [x]) a = some b → 0x10 ≤ b ∧ b ≤ 0xFF) ∧
      (∀ a, ¬Covers x.1 a → out.1 a = memory xs a) ∧
      out.2.addr = x.1.val.addr ∧ out.2.size = x.1.val.size ∧ out.2.read = x.1.val.read ∧
      out.2.write = x.1.val.write ∧ out.2.data.length = x.1.val.size :=
  ⟨fun hr _ hi => respond_byte xs hr hi, fun _ _ h => firstFill_range h,
    fun _ h => respond_frame xs x h, respond_header _ x⟩

end UbusVip.SlaveSequence
