import UbusVip.Testbench

namespace UbusVip

open FourState
open SlaveSequence (Draw Mem respond)

def request (tr : Item) : Packet :=
  { Packet.create with
    addr := tr.val.addr
    size := tr.val.size
    read := tr.val.read
    write := tr.val.write
    data := List.replicate tr.val.size 0 }

@[simp] theorem request_read (tr : Item) : (request tr).read = tr.val.read := rfl

@[simp] theorem request_write (tr : Item) : (request tr).write = tr.val.write := rfl

theorem request_dir (tr : Item) : (request tr).write = !(request tr).read := tr.write_eq

@[simp] theorem request_byte (tr : Item) (i : Nat) : (request tr).byte i = 0 := by
  simp [Packet.byte, request, List.getElem?_replicate]
  split <;> rfl

structure Transfer where
  item : Item
  rsp : Packet
  rsp_size : rsp.size = item.val.size
  rsp_read : rsp.read = item.val.read
  rsp_write : rsp.write = item.val.write
  rsp_data : rsp.data.length = item.val.size

namespace Transfer

def read (t : Transfer) : Bool := t.item.val.read

def size (t : Transfer) : Nat := t.item.val.size

def waits (t : Transfer) : Nat := t.rsp.waitState

theorem size_pos (t : Transfer) : 0 < t.size := t.item.size_pos

def byte (t : Transfer) (i : Nat) : Byte := if t.read then t.rsp.byte i else t.item.val.byte i

def branch (t : Transfer) : Monitor.Branch := if t.read then .read else .write

-- the byte a monitor stores at index i: aligned in the first transfer of a run, where it waits
-- on an x, and one place late in every other, where it leaves its wait loop on a data edge
def sampled (first : Bool) (t : Transfer) (i : Nat) : Byte :=
  if first then t.byte i else if i + 1 < t.size then t.byte (i + 1) else 0

def captured (first : Bool) (t : Transfer) (i : Nat) : Packet :=
  { request t.item with
    waitState := if first then 0 else t.waits + 1
    data := ArrayFill.fill (request t.item).data (t.sampled first) i }

def report (first : Bool) (t : Transfer) : Packet := t.captured first t.size

def handed (t : Transfer) (i : Nat) : Packet :=
  if t.read then
    { t.item.val with data := ArrayFill.fill t.item.val.data (fun j => t.rsp.byte (j - 1)) i }
  else t.item.val

section Fields

variable (t : Transfer)

@[simp] theorem item_read : t.item.val.read = t.read := rfl

@[simp] theorem item_write : t.item.val.write = !t.read := t.item.write_eq

@[simp] theorem item_size : t.item.val.size = t.size := rfl

@[simp] theorem rsp_read_eq : t.rsp.read = t.read := t.rsp_read

@[simp] theorem rsp_write_eq : t.rsp.write = !t.read := t.rsp_write.trans t.item.write_eq

@[simp] theorem rsp_size_eq : t.rsp.size = t.size := t.rsp_size

@[simp] theorem rsp_waits : t.rsp.waitState = t.waits := rfl

theorem branch_of_read (hr : t.read = true) : t.branch = .read := if_pos hr

theorem branch_of_write (hr : t.read = false) : t.branch = .write := if_neg (by simp [hr])

theorem byte_of_read (hr : t.read = true) (i : Nat) : t.rsp.byte i = t.byte i := by
  simp [byte, hr]

theorem byte_of_write (hr : t.read = false) (i : Nat) : t.item.val.byte i = t.byte i := by
  simp [byte, hr]

theorem handed_of_write (hr : t.read = false) (i : Nat) : t.handed i = t.item.val := by
  simp [handed, hr]

theorem handed_zero : t.handed 0 = t.item.val := by
  rw [handed]; split <;> rfl

theorem handed_write (i : Nat) : (t.handed i).write = !t.read := by
  rw [handed]; split <;> exact t.item.write_eq

theorem handed_size (i : Nat) : (t.handed i).size = t.size := by
  rw [handed]; split <;> rfl

theorem handed_set (hr : t.read = true) (i : Nat) {v : Byte} (hv : v = t.byte (i - 1)) :
    { t.handed i with data := (t.handed i).data.set i v } = t.handed (i + 1) := by
  rw [hv, ← t.byte_of_read hr]
  simp [handed, hr, ArrayFill.fill_succ]

end Fields

def serve (m : Mem) (tr : Item) (draw : Draw) : Transfer where
  item := tr
  rsp := (respond m (request tr) draw).2
  rsp_size := by rw [SlaveSequence.respond_rsp (request_dir tr)]; rfl
  rsp_read := by rw [SlaveSequence.respond_rsp (request_dir tr)]; rfl
  rsp_write := by rw [SlaveSequence.respond_rsp (request_dir tr)]; rfl
  rsp_data := by
    rw [SlaveSequence.respond_rsp (request_dir tr)]
    dsimp only
    split
    · rw [ArrayFill.length_fill]; exact List.length_replicate
    · exact List.length_replicate

theorem serve_waits (m : Mem) (tr : Item) (draw : Draw) :
    (serve m tr draw).waits = draw.waitState := by
  change (respond m (request tr) draw).2.waitState = _
  rw [SlaveSequence.respond_rsp (request_dir tr)]; rfl

end Transfer

def reportsFrom (first : Bool) : List Transfer → List Packet
  | [] => []
  | t :: ts => t.report first :: reportsFrom false ts

def reports (ts : List Transfer) : List Packet := reportsFrom true ts

@[simp] theorem reports_nil : reports [] = [] := rfl

theorem reportsFrom_concat (first : Bool) (ts : List Transfer) (t : Transfer) :
    reportsFrom first (ts ++ [t]) =
      reportsFrom first ts ++ [t.report (first && ts.isEmpty)] := by
  induction ts generalizing first with
  | nil => simp [reportsFrom]
  | cons u ts ih => simp [reportsFrom, ih]

@[simp] theorem reports_concat (ts : List Transfer) (t : Transfer) :
    reports (ts ++ [t]) = reports ts ++ [t.report ts.isEmpty] := by
  simp [reports, reportsFrom_concat]

inductive Phase where
  | idle (late : Option Transfer)
  | command (late : Option Transfer) (tr : Item)
  | address (tr : Item)
  | wait (t : Transfer) (i : Fin t.waits)
  | beat (t : Transfer) (i : Fin t.size)
  | tail (t : Transfer) (h : t.read = false)

-- past: the transfers both sides have closed; late: a read whose last edge on the slave side
-- is still to come when drive_transfer has returned
structure Timeline where
  past : List Transfer
  phase : Phase
  mem : Mem

namespace Timeline

def init : Timeline := ⟨[], .idle none, fun _ => none⟩

def firstBeat (t : Transfer) : Phase := .beat t ⟨0, t.size_pos⟩

def advance (draw : Nat → Draw) (tl : Timeline) : Timeline :=
  match tl.phase with
  | .idle late => { tl with past := tl.past ++ late.toList, phase := .idle none }
  | .command late tr => { tl with past := tl.past ++ late.toList, phase := .address tr }
  | .address tr =>
    let t := Transfer.serve tl.mem tr (draw tl.past.length)
    { tl with
      mem := (respond tl.mem (request tr) (draw tl.past.length)).1
      phase := if h : 0 < t.waits then .wait t ⟨0, h⟩ else firstBeat t }
  | .wait t i => { tl with phase := if h : i + 1 < t.waits then .wait t ⟨i + 1, h⟩ else firstBeat t }
  | .beat t i =>
    { tl with
      phase := if h : i + 1 < t.size then .beat t ⟨i + 1, h⟩
        else if hr : t.read then .idle (some t) else .tail t (by simpa using hr) }
  | .tail t _ => { tl with past := tl.past ++ [t], phase := .idle none }

def accept (offer : Option Item) (tl : Timeline) : Timeline :=
  match tl.phase, offer with
  | .idle late, some tr => { tl with phase := .command late tr }
  | _, _ => tl

def step (env : Env) (k : Nat) (tl : Timeline) : Timeline := accept (env.offer k) (advance env.draw tl)

def run (env : Env) (k : Nat) : Timeline := Clocked.run (step env) init k

def pending (tl : Timeline) : List Item :=
  match tl.phase with
  | .command _ tr => [tr]
  | .address tr => [tr]
  | _ => []

def opened (tl : Timeline) : List Transfer :=
  match tl.phase with
  | .idle late => tl.past ++ late.toList
  | .command late _ => tl.past ++ late.toList
  | .address _ => tl.past
  | .wait t _ => tl.past ++ [t]
  | .beat t _ => tl.past ++ [t]
  | .tail t _ => tl.past ++ [t]

def finished (tl : Timeline) : List Transfer :=
  match tl.phase with
  | .idle late => tl.past ++ late.toList
  | .command late _ => tl.past ++ late.toList
  | _ => tl.past

-- the transfers both monitors have published: all closed ones, and the first one early
def reported (tl : Timeline) : List Transfer :=
  match tl.phase with
  | .idle late => if tl.past.isEmpty then late.toList else tl.past
  | .command late _ => if tl.past.isEmpty then late.toList else tl.past
  | .tail t _ => if tl.past.isEmpty then [t] else tl.past
  | _ => tl.past

def items (tl : Timeline) : List Item := tl.opened.map (·.item) ++ tl.pending

end Timeline

end UbusVip
