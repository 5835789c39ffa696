import UbusVip.CommonVip.Packet
import UbusVip.Library.ArrayFill
import UbusVip.Library.FilledMemory

namespace UbusVip.SlaveSequence

open FilledMemory (Access Store apply replay)

-- the values $urandom_range(8'h10, 8'hFF) can return
abbrev Fill := {v : Word // 0x10 ≤ v ∧ v ≤ 0xFF}

theorem Fill.byte_range (f : Fill) :
    0x10 ≤ (f.val.setWidth 8 : Byte) ∧ (f.val.setWidth 8 : Byte) ≤ 0xFF := by
  have hlo : 16 ≤ f.val.toNat := f.property.1
  have hhi : f.val.toNat ≤ 255 := f.property.2
  have hnat : (f.val.setWidth 8 : Byte).toNat = f.val.toNat % 2 ^ 8 := BitVec.toNat_setWidth ..
  constructor
  · change 16 ≤ (f.val.setWidth 8 : Byte).toNat
    omega
  · change (f.val.setWidth 8 : Byte).toNat ≤ 255
    omega

structure Draw where
  waitState : Nat
  fill : Nat → Fill

def Draw.fixed (waitState : Nat) : Draw := ⟨waitState, fun _ => ⟨0x10, by decide⟩⟩

abbrev Mem := Store Nat Word

inductive Loc where
  | get
  | finishItem (rsp : Packet)
deriving DecidableEq, Repr

def serveByte (req : Packet) (draw : Draw) (st : Mem × Packet) (i : Nat) : Mem × Packet :=
  let a := req.addr.toNat + i
  let m := if req.write then Function.update st.1 a (some ((req.byte i).setWidth 32)) else st.1
  if req.read then
    let m := if (m a).isSome then m else Function.update m a (some (draw.fill i).val)
    (m, { st.2 with data := st.2.data.set i (((m a).getD 0).setWidth 8) })
  else (m, st.2)

def newResponse (req : Packet) (draw : Draw) : Packet :=
  { Packet.create with
    addr := req.addr
    size := req.size
    read := req.read
    write := req.write
    data := req.data
    error := false
    waitState := draw.waitState }

def respond (m : Mem) (req : Packet) (draw : Draw) : Mem × Packet :=
  (List.range req.size).foldl (serveByte req draw) (m, newResponse req draw)

def access (req : Packet) (draw : Draw) (i : Nat) : Access Nat Word :=
  if req.write then .write (req.addr.toNat + i) ((req.byte i).setWidth 32)
  else .touch (req.addr.toNat + i) (draw.fill i)

def accesses (req : Packet) (draw : Draw) : List (Access Nat Word) :=
  (List.range req.size).map (access req draw)

def fillAt (req : Packet) (draw : Draw) (a : Nat) : Word := (draw.fill (a - req.addr.toNat)).val

theorem fillAt_lt (req : Packet) (draw : Draw) (a : Nat) : (fillAt req draw a).toNat < 256 := by
  have hle : (fillAt req draw a).toNat ≤ 255 := (draw.fill (a - req.addr.toNat)).property.2
  omega

theorem accesses_read {req : Packet} (hw : req.write = false) (draw : Draw) :
    accesses req draw = FilledMemory.touches (fillAt req draw) req.span := by
  simp [accesses, access, hw, FilledMemory.touches, Packet.span, fillAt, Function.comp_def]

theorem accesses_write {req : Packet} (hw : req.write = true) (draw : Draw) :
    accesses req draw = FilledMemory.writes req.byteAt req.span := by
  simp [accesses, access, hw, FilledMemory.writes, Packet.span, Function.comp_def]

theorem access_key (req : Packet) (draw : Draw) (i : Nat) :
    (access req draw i).key = req.addr.toNat + i := by
  rw [access]
  split <;> rfl

theorem serveByte_mem {req : Packet} (hd : req.write = !req.read) (draw : Draw)
    (st : Mem × Packet) (i : Nat) :
    (serveByte req draw st i).1 = apply st.1 (access req draw i) := by
  cases hr : req.read
  · simp [serveByte, access, hd, hr, apply]
  · simp [serveByte, access, hd, hr, apply]

theorem serveByte_read {req : Packet} (hr : req.read = true) (draw : Draw)
    (st : Mem × Packet) (i : Nat) :
    (serveByte req draw st i).2 = { st.2 with
      data := st.2.data.set i
        ((((serveByte req draw st i).1 (req.addr.toNat + i)).getD 0).setWidth 8) } := by
  simp [serveByte, hr]

theorem serveByte_write {req : Packet} (hr : req.read = false) (draw : Draw)
    (st : Mem × Packet) (i : Nat) : (serveByte req draw st i).2 = st.2 := by
  simp [serveByte, hr]

theorem foldl_mem {req : Packet} (hd : req.write = !req.read) (draw : Draw) (m : Mem)
    (rsp : Packet) (n : Nat) :
    ((List.range n).foldl (serveByte req draw) (m, rsp)).1 =
      replay m ((List.range n).map (access req draw)) := by
  induction n with
  | zero => rfl
  | succ n ih =>
    rw [List.range_succ, List.foldl_append, List.foldl_cons, List.foldl_nil, serveByte_mem hd, ih,
      List.map_append, FilledMemory.replay_append]
    rfl

theorem respond_mem {req : Packet} (hd : req.write = !req.read) (draw : Draw) (m : Mem) :
    (respond m req draw).1 = replay m (accesses req draw) := foldl_mem hd draw m _ _

def readByte (m : Mem) (req : Packet) (draw : Draw) (i : Nat) : Byte :=
  ((replay m (accesses req draw) (req.addr.toNat + i)).getD 0).setWidth 8

theorem replay_accesses_prefix (m : Mem) (req : Packet) (draw : Draw) {i n : Nat} (h : i < n) :
    replay m ((List.range n).map (access req draw)) (req.addr.toNat + i) =
      replay m ((List.range (i + 1)).map (access req draw)) (req.addr.toNat + i) := by
  induction n with
  | zero => omega
  | succ n ih =>
    rcases eq_or_ne i n with rfl | hin
    · rfl
    · have hkey : (access req draw n).key ≠ req.addr.toNat + i := by
        rw [access_key]; omega
      rw [List.range_succ, List.map_append, FilledMemory.replay_append, List.map_singleton,
        FilledMemory.replay_singleton, FilledMemory.apply_of_ne _ hkey, ih (by omega)]

theorem foldl_read {req : Packet} (hd : req.write = !req.read) (hr : req.read = true)
    (draw : Draw) (m : Mem) (rsp : Packet) {n : Nat} (hn : n ≤ req.size) :
    ((List.range n).foldl (serveByte req draw) (m, rsp)).2 =
      { rsp with data := ArrayFill.fill rsp.data (readByte m req draw) n } := by
  induction n with
  | zero => rfl
  | succ n ih =>
    rw [List.range_succ, List.foldl_append, List.foldl_cons, List.foldl_nil, serveByte_read hr,
      ih (by omega), serveByte_mem hd, foldl_mem hd, ArrayFill.fill_succ]
    have hbyte : replay m (accesses req draw) (req.addr.toNat + n) =
        apply (replay m ((List.range n).map (access req draw))) (access req draw n)
          (req.addr.toNat + n) := by
      rw [accesses, replay_accesses_prefix m req draw (show n < req.size by omega),
        List.range_succ, List.map_append, FilledMemory.replay_append]
      rfl
    rw [readByte, hbyte]

theorem foldl_write {req : Packet} (hr : req.read = false) (draw : Draw) (m : Mem)
    (rsp : Packet) (n : Nat) :
    ((List.range n).foldl (serveByte req draw) (m, rsp)).2 = rsp := by
  induction n with
  | zero => rfl
  | succ n ih =>
    rw [List.range_succ, List.foldl_append, List.foldl_cons, List.foldl_nil,
      serveByte_write hr, ih]

theorem respond_rsp {req : Packet} (hd : req.write = !req.read) (draw : Draw) (m : Mem) :
    (respond m req draw).2 = { newResponse req draw with
      data := if req.read then ArrayFill.fill req.data (readByte m req draw) req.size
        else req.data } := by
  cases hr : req.read
  · rw [respond, foldl_write hr]; rfl
  · rw [respond, foldl_read hd hr draw m _ le_rfl]; rfl

theorem respond_read_byte {req : Packet} (hd : req.write = !req.read) (hr : req.read = true)
    (hl : req.data.length = req.size) (draw : Draw) (m : Mem) {i : Nat} (hi : i < req.size) :
    (respond m req draw).2.byte i = readByte m req draw i := by
  rw [respond_rsp hd, Packet.byte, if_pos hr, ArrayFill.getD_fill_of_lt _ _ _ hi (by omega)]

end UbusVip.SlaveSequence
