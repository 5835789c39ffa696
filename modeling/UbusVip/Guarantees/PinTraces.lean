import UbusVip.Guarantees.Observers

namespace UbusVip

open FourState

namespace PinTrace

open Monitor

structure Span where
  command : Nat
  waits : Nat
  first : Nat
  packet : Packet

namespace Span

def resume (t : Span) : Nat := t.command + t.waits

def last (t : Span) : Nat := t.first + t.packet.size - 1

end Span

variable (pins : Nat → Bus)

-- the transfer goes on at the edge at which ubus_wait falls to 0, or hangs until it is seen at 0
def Released (resume first : Nat) : Prop :=
  (pins resume).ubusWait = .zero ∧ first = resume + 1 ∨
    resume < first ∧ (pins first).ubusWait = .zero ∧
      ∀ j, resume ≤ j → j < first → (pins j).ubusWait ≠ .zero

structure Shown (t : Span) : Prop where
  command : (pins t.command).command
  addr : t.packet.addr = (pins t.command).ubusAddr.toBits
  read : t.packet.read = (pins t.command).ubusRead.toBool
  write : t.packet.write = (pins t.command).ubusWrite.toBool
  size : t.packet.size = 2 ^ (pins t.command).ubusSize.toBits.toNat
  waits : ∀ j, t.command ≤ j → j < t.resume → (pins j).ubusWait = .one
  waitState : t.packet.waitStateInt = (t.waits : Int).bmod (2 ^ 32)
  resumed : (pins t.resume).ubusWait ≠ .one
  released : Released pins t.resume t.first
  data : t.packet.data = (List.range t.packet.size).map fun i => (pins (t.first + i)).ubusData.toBits

theorem Shown.waitState_of_lt {t : Span} (h : Shown pins t) (hlt : t.waits < 2 ^ 31) :
    t.packet.waitStateInt = t.waits := by
  rw [h.waitState, Int.bmod_def]
  omega

def Sized (p : Bus) : Prop := p.command → ∃ c : BitVec 3, c.toNat ≤ 3 ∧ p.ubusSize = .known c

def opening (p : Bus) : Packet := Monitor.request (caseSize 0 p.ubusSize) p

variable {pins}

theorem Sized.opening_size {p : Bus} (h : Sized p) (hc : p.command) :
    (opening p).size = 2 ^ p.ubusSize.toBits.toNat := by
  obtain ⟨c, hle, hsize⟩ := h hc
  have hcases : ∀ c : BitVec 3, c.toNat ≤ 3 → caseSize 0 (.known c) = 2 ^ c.toNat := by decide
  change caseSize 0 p.ubusSize = _
  rw [hsize, hcases c hle, LogicVec.toBits_known]

theorem Sized.opening_size_pos {p : Bus} (h : Sized p) (hc : p.command) : 0 < (opening p).size := by
  rw [h.opening_size hc]
  exact Nat.two_pow_pos _

def Opens (p : Bus) (act : Act) : Prop :=
  act.collected = [] ∧
    (act.loc = .top ∨
      p.command ∧ ∃ br, act.loc = (waitHigh (fun _ _ => stay .top) br (opening p) 0 p).loc)

def taken (first i : Nat) (pins : Nat → Bus) (req : Packet) (waitState : Nat) : Packet :=
  { req with
    waitState := waitState
    data := (List.range i).map (fun j => (pins (first + j)).ubusData.toBits) ++
      List.replicate (req.size - i) 0 }

variable (pins) in
-- a monitor's location before edge k, with ubus_wait already looked at before edge `seen`; Bound
-- holds of the edge of the command that is being served
def Tracks (Bound : Nat → Prop) (k seen : Nat) : Loc → Prop
  | .top => True
  | .waitHigh _ req n => ∃ c, Bound c ∧ (pins c).command ∧ req = opening (pins c) ∧
      c + n + 1 = k ∧ ∀ j, c ≤ j → j ≤ c + n → (pins j).ubusWait = .one
  | .waitLow _ req n => ∃ c, Bound c ∧ (pins c).command ∧ req = opening (pins c) ∧ c + n < k ∧
      (∀ j, c ≤ j → j < c + n → (pins j).ubusWait = .one) ∧ (pins (c + n)).ubusWait ≠ .one ∧
      ∀ j, c + n ≤ j → j < seen → (pins j).ubusWait ≠ .zero
  | .beat _ req i => ∃ c n first, Bound c ∧ (pins c).command ∧
      req = taken first i pins (opening (pins c)) n ∧ first + i = k ∧ i < (opening (pins c)).size ∧
      (∀ j, c ≤ j → j < c + n → (pins j).ubusWait = .one) ∧ (pins (c + n)).ubusWait ≠ .one ∧
      Released pins (c + n) first

theorem Tracks.mono {Bound Bound' : Nat → Prop} {k seen : Nat} {l : Loc}
    (h : Tracks pins Bound k seen l) (hb : ∀ c, Bound c → Bound' c) :
    Tracks pins Bound' k seen l := by
  cases l with
  | top => trivial
  | waitHigh br req n =>
    obtain ⟨c, hc, h⟩ := h
    exact ⟨c, hb c hc, h⟩
  | waitLow br req n =>
    obtain ⟨c, hc, h⟩ := h
    exact ⟨c, hb c hc, h⟩
  | beat br req i =>
    obtain ⟨c, n, first, hc, h⟩ := h
    exact ⟨c, n, first, hb c hc, h⟩

theorem Released.lt {resume first : Nat} (h : Released pins resume first) : resume < first := by
  rcases h with ⟨-, rfl⟩ | ⟨hlt, -⟩
  · exact Nat.lt_succ_self _
  · exact hlt

theorem taken_zero (first : Nat) (pins : Nat → Bus) (p : Bus) (n : Nat) :
    taken first 0 pins (opening p) n = { opening p with waitState := n } := rfl

theorem taken_set (pins : Nat → Bus) (first n : Nat) {i : Nat} {req : Packet} (hi : i < req.size) :
    { taken first i pins req n with
      data := (taken first i pins req n).data.set i (pins (first + i)).ubusData.toBits } =
    taken first (i + 1) pins req n := by
  have hrest : req.size - i = (req.size - (i + 1)) + 1 := by omega
  have hdata : (taken first i pins req n).data.set i (pins (first + i)).ubusData.toBits =
      (taken first (i + 1) pins req n).data := by
    simp only [taken, hrest, List.replicate_succ, List.range_succ, List.map_append, List.map_singleton]
    rw [List.set_append_right _ _ (by simp)]
    simp
  rw [hdata]
  rfl

section Steps

variable {Bound : Nat → Prop} {k : Nat}

theorem tracks_waitHigh {after : Branch → Bus → Act} {c n : Nat} {br : Branch} (hb : Bound c)
    (hsized : Sized (pins c)) (hc : (pins c).command) (hk : c + n = k)
    (hones : ∀ j, c ≤ j → j < c + n → (pins j).ubusWait = .one) :
    Tracks pins Bound (k + 1) (k + 1) (waitHigh after br (opening (pins c)) n (pins k)).loc := by
  subst hk
  have hpos := hsized.opening_size_pos hc
  by_cases hone : (pins (c + n)).ubusWait = .one
  · rw [waitHigh_one br _ n hone]
    refine ⟨c, hb, hc, rfl, rfl, fun j hj hle => ?_⟩
    rcases Nat.lt_or_eq_of_le hle with hlt | rfl
    · exact hones j hj hlt
    · exact hone
  · by_cases hzero : (pins (c + n)).ubusWait = .zero
    · rw [waitHigh_zero n hzero hpos]
      exact ⟨c, n, c + n + 1, hb, hc, taken_zero .. |>.symm, rfl, hpos, hones, hone, .inl ⟨hzero, rfl⟩⟩
    · rw [waitHigh, if_neg hone, waitLow, if_neg hzero]
      refine ⟨c, hb, hc, rfl, Nat.lt_succ_self _, hones, hone, fun j hj hlt => ?_⟩
      rwa [show j = c + n by omega]

theorem collected_waitHigh {after : Branch → Bus → Act} {br : Branch} {req : Packet}
    (h : 0 < req.size) (n : Nat) (p : Bus) : (waitHigh after br req n p).collected = [] := by
  rw [waitHigh]
  split
  · rfl
  · rw [waitLow]
    split
    · rw [samples_more]
      · rfl
      · exact h
    · rfl

theorem Opens.tracks {act : Act} (h : Opens (pins k) act) (hb : Bound k) (hsized : Sized (pins k)) :
    Tracks pins Bound (k + 1) (k + 1) act.loc := by
  obtain ⟨-, htop | ⟨hc, br, hloc⟩⟩ := h
  · rw [htop]
    trivial
  · rw [hloc]
    exact tracks_waitHigh hb hsized hc rfl fun j hj hlt => absurd hlt (Nat.not_lt.mpr hj)

theorem tracks_settle (after : Branch → Bus → Act) {l : Loc} (hsized : ∀ j, Sized (pins j))
    (h : Tracks pins Bound k k l) :
    Tracks pins Bound k (k + 1) (Monitor.settle after (pins k) l).loc ∧
      (Monitor.settle after (pins k) l).collected = [] := by
  cases l with
  | top | waitHigh br req n | beat br req i => exact ⟨h, rfl⟩
  | waitLow br req n =>
    obtain ⟨c, hb, hc, rfl, hlt, hones, hone, hlow⟩ := h
    have hpos := (hsized c).opening_size_pos hc
    by_cases hzero : (pins k).ubusWait = .zero
    · rw [Monitor.settle, waitLow_zero n hzero hpos]
      exact ⟨⟨c, n, k, hb, hc, (taken_zero ..).symm, rfl, hpos, hones, hone,
        .inr ⟨hlt, hzero, hlow⟩⟩, rfl⟩
    · rw [Monitor.settle, waitLow, if_neg hzero]
      refine ⟨⟨c, hb, hc, rfl, hlt, hones, hone, fun j hj hle => ?_⟩, rfl⟩
      rcases Nat.lt_or_eq_of_le (Nat.le_of_lt_succ hle) with hlt' | rfl
      · exact hlow j hj hlt'
      · exact hzero

theorem tracks_edge {after : Branch → Bus → Act} {top : Bus → Act} {l : Loc}
    (hsized : ∀ j, Sized (pins j)) (htop : Opens (pins k) (top (pins k)))
    (hafter : ∀ br, Opens (pins k) (after br (pins k))) (hk : Bound k)
    (h : Tracks pins Bound k (k + 1) l) :
    let act := Monitor.edge after top (pins k) l
    (act.collected = [] ∧ Tracks pins Bound (k + 1) (k + 1) act.loc) ∨
      ∃ t, Shown pins t ∧ Bound t.command ∧ t.command ≤ k ∧ t.last = k ∧
        act.collected = [t.packet] ∧
        Tracks pins (fun c => Bound c ∧ k ≤ c) (k + 1) (k + 1) act.loc := by
  cases l with
  | top => exact .inl ⟨htop.1, htop.tracks hk (hsized k)⟩
  | waitHigh br req n =>
    obtain ⟨c, hb, hc, rfl, hn, hones⟩ := h
    refine .inl ⟨collected_waitHigh ((hsized c).opening_size_pos hc) (n + 1) _, ?_⟩
    exact tracks_waitHigh hb (hsized c) hc hn fun j hj hlt => hones j hj (Nat.le_of_lt_succ hlt)
  | waitLow br req n =>
    obtain ⟨c, hb, hc, rfl, hlt, hones, hone, hlow⟩ := h
    exact .inl ⟨rfl, c, hb, hc, rfl, Nat.lt_succ_of_lt hlt, hones, hone, hlow⟩
  | beat br req i =>
    obtain ⟨c, n, first, hb, hc, rfl, rfl, hi, hones, hone, hfree⟩ := h
    have hset := taken_set pins first n hi
    rw [Monitor.edge, hset]
    by_cases hmore : i + 1 < (taken first (i + 1) pins (opening (pins c)) n).size
    · rw [samples_more _ hmore]
      exact .inl ⟨rfl, c, n, first, hb, hc, rfl, rfl, hmore, hones, hone, hfree⟩
    · have hlast : ¬i + 1 < (opening (pins c)).size := hmore
      have hsize : (opening (pins c)).size = i + 1 := by omega
      have hlt := hfree.lt
      rw [samples, if_neg hmore]
      refine .inr ⟨⟨c, n, first, taken first (i + 1) pins (opening (pins c)) n⟩, ?_, hb, ?_, ?_, ?_, ?_⟩
      · refine ⟨hc, rfl, rfl, rfl, (hsized c).opening_size hc, hones, BitVec.toInt_ofNat .., hone,
          hfree, ?_⟩
        simp [taken, hsize]
      · change c ≤ first + i
        omega
      · change first + (opening (pins c)).size - 1 = first + i
        omega
      · simp only [(hafter br).1]
      · exact (hafter br).tracks ⟨hk, le_rfl⟩ (hsized _)

end Steps

structure Watches (m : Process) (after : Branch → Bus → Act) (top : Bus → Act) : Prop where
  edge : m.edge = Monitor.edge after top
  settle : m.settle = Monitor.settle after
  top : ∀ p, Sized p → Opens p (top p)
  after : ∀ p, Sized p → ∀ br, Opens p (after br p)

theorem Sized.caseSize_default {p : Bus} (h : Sized p) (hc : p.command) (d : Nat) :
    caseSize d p.ubusSize = caseSize 0 p.ubusSize := by
  obtain ⟨c, hle, hsize⟩ := h hc
  have hcases : ∀ c : BitVec 3, c.toNat ≤ 3 → c = 0 ∨ c = 1 ∨ c = 2 ∨ c = 3 := by decide
  rw [hsize]
  rcases hcases c hle with rfl | rfl | rfl | rfl <;> simp [caseSize]

theorem opens_stay (p : Bus) : Opens p (stay .top) := ⟨rfl, .inl rfl⟩

theorem Sized.opens_waitHigh {p : Bus} (h : Sized p) (hc : p.command) (after : Branch → Bus → Act)
    (br : Branch) : Opens p (waitHigh after br (opening p) 0 p) := by
  have hpos := h.opening_size_pos hc
  exact ⟨collected_waitHigh hpos 0 p, .inr ⟨hc, br, congrArg Act.loc (waitHigh_after hpos _ 0 p)⟩⟩

theorem Sized.opens_ifWrite {p : Bus} (h : Sized p) : Opens p (MasterMonitor.ifWrite p) := by
  rw [MasterMonitor.ifWrite]
  split
  · have hc : p.command := .inr (by assumption)
    rw [h.caseSize_default hc]
    exact h.opens_waitHigh hc _ .write
  · exact opens_stay p

theorem watches_master : Watches masterMonitor MasterMonitor.after MasterMonitor.top where
  edge := rfl
  settle := rfl
  top p h := by
    rw [MasterMonitor.top]
    split
    · exact h.opens_waitHigh (.inl (by assumption)) _ .read
    · exact h.opens_ifWrite
  after p h br := by
    cases br with
    | read => exact h.opens_ifWrite
    | write => exact opens_stay p

theorem watches_slave : Watches slaveMonitor SlaveMonitor.after SlaveMonitor.top where
  edge := rfl
  settle := rfl
  top p h := by
    have hcollect (hc : p.command) (br : Branch) :
        Opens p (SlaveMonitor.collect br (opening p) p) := h.opens_waitHigh hc _ br
    rw [SlaveMonitor.top]
    split
    · have hc : p.command := by assumption
      dsimp only
      split
      · exact hcollect hc .read
      · split
        · exact hcollect hc .write
        · exact opens_stay p
    · exact opens_stay p
  after p _ _ := opens_stay p

variable (pins) in
structure History (m : Process) (K : Nat) (ts : List Span) : Prop where
  published : (List.range K).flatMap (fun k => (m.published pins k).map (k, ·)) =
    ts.map fun t => (t.last, t.packet)
  shown : ∀ t ∈ ts, Shown pins t
  ordered : ts.Pairwise fun t u => t.last ≤ u.command
  ended : ∀ t ∈ ts, t.last < K
  tracks : Tracks pins (fun c => ∀ t ∈ ts, t.last ≤ c) K (K + 1) (m.loc pins K)

variable {m : Process} {after : Branch → Bus → Act} {top : Bus → Act}

theorem history_init (m : Process) : History pins m 0 [] :=
  ⟨rfl, nofun, .nil, nofun, trivial⟩

theorem History.step {K : Nat} {ts : List Span} (h : History pins m K ts) (hm : Watches m after top)
    (hsized : ∀ j, Sized (pins j)) : ∃ ts', History pins m (K + 1) ts' := by
  let act := m.edge (pins K) (m.loc pins K)
  have hloc : m.loc pins (K + 1) = (Monitor.settle after (pins (K + 1)) act.loc).loc := by
    change (m.settle _ _).loc = _
    rw [hm.settle]
  have hpub (hquiet : (Monitor.settle after (pins (K + 1)) act.loc).collected = []) :
      m.published pins K = act.collected := by
    change act.collected ++ (m.settle _ _).collected = _
    rw [hm.settle, hquiet, List.append_nil]
  have hact : act = Monitor.edge after top (pins K) (m.loc pins K) := by rw [← hm.edge]
  rcases tracks_edge hsized (hm.top _ (hsized K)) (hm.after _ (hsized K))
    (fun t ht => Nat.le_of_lt (h.ended t ht)) h.tracks with
    ⟨hnone, htracks⟩ | ⟨t, hshown, hbound, hle, hlast, hone, htracks⟩
  · rw [← hact] at hnone htracks
    obtain ⟨hnext, hquiet⟩ := tracks_settle after hsized htracks
    refine ⟨ts, ?_, h.shown, h.ordered, fun t ht => Nat.lt_succ_of_lt (h.ended t ht), hloc ▸ hnext⟩
    rw [List.range_succ, List.flatMap_append, h.published, List.flatMap_singleton, hpub hquiet, hnone]
    exact List.append_nil _
  · rw [← hact] at hone htracks
    obtain ⟨hnext, hquiet⟩ := tracks_settle after hsized htracks
    refine ⟨ts ++ [t], ?_, ?_, ?_, ?_, ?_⟩
    · rw [List.range_succ, List.flatMap_append, h.published, List.flatMap_singleton, hpub hquiet, hone,
        List.map_append, List.map_singleton, List.map_singleton, hlast]
    · intro u hu
      rcases List.mem_append.mp hu with hu | hu
      · exact h.shown u hu
      · rwa [List.mem_singleton.mp hu]
    · refine List.pairwise_append.mpr ⟨h.ordered, List.pairwise_singleton _ _, ?_⟩
      intro u hu v hv
      rw [List.mem_singleton.mp hv]
      exact hbound u hu
    · intro u hu
      rcases List.mem_append.mp hu with hu | hu
      · exact Nat.lt_succ_of_lt (h.ended u hu)
      · rw [List.mem_singleton.mp hu, hlast]
        exact Nat.lt_succ_self K
    · rw [hloc]
      refine hnext.mono fun c hc u hu => ?_
      rcases List.mem_append.mp hu with hu | hu
      · exact hc.1 u hu
      · rw [List.mem_singleton.mp hu, hlast]
        exact hc.2

theorem exists_history (hm : Watches m after top) (hsized : ∀ j, Sized (pins j)) (K : Nat) :
    ∃ ts, History pins m K ts := by
  induction K with
  | zero => exact ⟨[], history_init m⟩
  | succ K ih =>
    obtain ⟨ts, h⟩ := ih
    exact h.step hm hsized

variable (pins) in
def Explained (m : Process) (K : Nat) : Prop :=
  ∃ ts : List Span,
    (List.range K).flatMap (fun k => (m.published pins k).map (k, ·)) =
        ts.map (fun t => (t.last, t.packet)) ∧
      (∀ t ∈ ts, Shown pins t) ∧ ts.Pairwise fun t u => t.last ≤ u.command

theorem History.explained {K : Nat} {ts : List Span} (h : History pins m K ts) :
    Explained pins m K := ⟨ts, h.published, h.shown, h.ordered⟩

end PinTrace

theorem published_explained {pins : Nat → Bus} (hsized : ∀ k, PinTrace.Sized (pins k)) (K : Nat) :
    PinTrace.Explained pins masterMonitor K ∧ PinTrace.Explained pins slaveMonitor K := by
  obtain ⟨_, hmaster⟩ := PinTrace.exists_history PinTrace.watches_master hsized K
  obtain ⟨_, hslave⟩ := PinTrace.exists_history PinTrace.watches_slave hsized K
  exact ⟨hmaster.explained, hslave.explained⟩

theorem published_explained_writeThenRead :
    let pins := fun k => (Testbench.run .writeThenRead k).bus
    (masterMonitor.published pins 5).length = 1 ∧ PinTrace.Explained pins masterMonitor 6 :=
  ⟨by decide, (published_explained (fun k => (run_follows .writeThenRead k).legalPins.size) 6).1⟩

end UbusVip
