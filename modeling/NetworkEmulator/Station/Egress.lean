import NetworkEmulator.Station.Routed

namespace NetworkEmulator.Station

open Transition

variable {cfg : Config} {ms : List (Move State Event Out)} {mv : Move State Event Out}
  {s s' : State} {st st' : Store} {h out : List Out} {i : IfaceSocketPair}
  {rest : List IfaceSocketPair} {recv buffer : EtherPkt} {now : Milliseconds} {u : Uninit}

-- what stands in recv_ether_pkt after a read that is not the end of the stream
def Received.pkt (buffer : EtherPkt) : Received → Option EtherPkt
  | .eof => none
  | .error => some buffer
  | .frame pkt => some pkt

def Hears (mv : Move State Event Out) (i : IfaceSocketPair) (recv : EtherPkt) : Prop :=
  ∃ rest buffer r now u, mv.before.pc = .ifaces (i :: rest) buffer ∧
    mv.event = .recv r now u ∧ r.pkt buffer = some recv

theorem rest_subset (p : Path (machine cfg) ms s h) (hpc : s.pc = .ifaces rest recv) :
    rest ⊆ cfg.ifaces := by
  induction p generalizing rest recv with
  | nil => cases hpc
  | snoc p hs ih =>
    rcases pc_of_step hs hpc with ⟨rfl, -⟩ | ⟨i, buffer, hpc', -, -⟩
    · exact List.Subset.refl _
    · exact fun j hj => ih hpc' (List.mem_cons_of_mem _ hj)

theorem step_hears {r : Received} (hpc : s.pc = .ifaces (i :: rest) buffer)
    (hr : r.pkt buffer = some recv) :
    step cfg s (.recv r now u) =
      some (settle s (next rest recv) [.handle i recv] (handlePkt cfg s.store i now u recv)) := by
  simp only [step, hpc]
  cases r with
  | eof => cases hr
  | error =>
    obtain rfl := Option.some.inj hr
    rfl
  | frame pkt =>
    obtain rfl := Option.some.inj hr
    rfl

theorem out_of_hears {r : Received} (hpc : s.pc = .ifaces (i :: rest) buffer)
    (hr : r.pkt buffer = some recv) (hs : step cfg s (.recv r now u) = some (s', out))
    (hk : handlePkt cfg s.store i now u recv = .ok (st', h)) :
    s' = { s with store := st', pc := next rest recv } ∧ out = .handle i recv :: h := by
  rw [step_hears hpc hr, hk] at hs
  obtain ⟨rfl, rfl⟩ := Prod.mk.inj (Option.some.inj hs)
  exact ⟨rfl, rfl⟩

section Request

def RepliesFor (i o : IfaceSocketPair) (recv : EtherPkt) (frames : List (Port × EtherPkt)) : Prop :=
  ∃ pkt, frames = [(i.2.fd, pkt)] ∧ pkt.type = 0 ∧ pkt.macDst = recv.macSrc ∧
    pkt.arpPkt = ⟨1, o.1.ipAddr, o.1.macAddr, recv.arpPkt.srcIp, recv.arpPkt.srcMac⟩

def Answered (cfg : Config) (mv : Move State Event Out) (i : IfaceSocketPair) (recv : EtherPkt) :
    Prop :=
  (∀ o ∈ cfg.ifaces, o.1.ipAddr = recv.arpPkt.dstIp →
      RepliesFor i o recv (mv.out.filterMap Out.frame)) ∧
    ((∀ o ∈ cfg.ifaces, o.1.ipAddr ≠ recv.arpPkt.dstIp) →
      mv.out.filterMap Out.frame = [] ∧ mv.after.store = mv.before.store)

theorem owners_eq_singleton (hips : (cfg.ifaces.map (fun i => i.1.ipAddr)).Nodup)
    {o : IfaceSocketPair} (ho : o ∈ cfg.ifaces) : owners cfg o.1.ipAddr = [o] := by
  have hnodup : (owners cfg o.1.ipAddr).Nodup := (List.Nodup.of_map _ hips).filter _
  have hall : ∀ i, i ∈ owners cfg o.1.ipAddr ↔ i = o := by
    intro i
    simp only [owners, List.mem_filter, decide_eq_true_eq]
    constructor
    · rintro ⟨hi, heq⟩
      exact List.inj_on_of_nodup_map hips hi ho heq.symm
    · rintro rfl
      exact ⟨ho, rfl⟩
  exact List.perm_singleton.mp ((List.perm_ext_iff_of_nodup hnodup (List.nodup_singleton o)).mpr
    (by simpa using hall))

theorem handleRequest_none (hno : ∀ o ∈ cfg.ifaces, o.1.ipAddr ≠ recv.arpPkt.dstIp) :
    handleRequest now u recv cfg.ifaces st = (st, []) := by
  have hany : cfg.ifaces.any (fun i => recv.arpPkt.dstIp = i.1.ipAddr) = false := by
    rw [List.any_eq_false]
    exact fun o ho => by simpa using (hno o ho).symm
  have hnil : cfg.ifaces.filter (fun i => recv.arpPkt.dstIp = i.1.ipAddr) = [] := by
    rw [List.filter_eq_nil_iff]
    exact fun o ho => by simpa using (hno o ho).symm
  rw [handleRequest_eq, hany, hnil]
  rfl

theorem handleRequest_owner (hips : (cfg.ifaces.map (fun i => i.1.ipAddr)).Nodup)
    {o : IfaceSocketPair} (ho : o ∈ cfg.ifaces) (hdst : o.1.ipAddr = recv.arpPkt.dstIp) :
    (handleRequest now u recv cfg.ifaces st).2 = [.reply o.2.fd (respFrame u o.1 recv)] := by
  have howners : cfg.ifaces.filter (fun i => recv.arpPkt.dstIp = i.1.ipAddr) = [o] := by
    rw [← hdst]
    exact owners_eq_singleton hips ho
  rw [handleRequest_eq, howners]
  rfl

theorem request_answered_iff (hips : (cfg.ifaces.map (fun i => i.1.ipAddr)).Nodup)
    (p : Path (machine cfg) ms s h) (hmv : mv ∈ ms)
    (hpc : mv.before.pc = .ifaces (i :: rest) buffer)
    (he : mv.event = .recv (.frame recv) now u) (ht : recv.type = 0) (hop : recv.arpPkt.op = 0) :
    Answered cfg mv i recv ↔
      ∀ o ∈ cfg.ifaces, o.1.ipAddr = recv.arpPkt.dstIp → o.2.fd = i.2.fd := by
  obtain ⟨_, -, -, hs⟩ := p.before hmv
  rw [he] at hs
  have hk : handlePkt cfg mv.before.store i now u recv =
      .ok (handleRequest now u recv cfg.ifaces mv.before.store) := by
    rw [handlePkt, if_pos ht, if_pos hop]
  obtain ⟨hafter, hout⟩ := out_of_hears hpc rfl hs hk
  have hframes : mv.out.filterMap Out.frame =
      (handleRequest now u recv cfg.ifaces mv.before.store).2.filterMap Out.frame := by
    rw [hout]
    rfl
  unfold Answered
  rw [hframes, hafter]
  constructor
  · rintro ⟨howner, -⟩ o ho hdst
    obtain ⟨pkt, heq, -⟩ := howner o ho hdst
    rw [handleRequest_owner hips ho hdst] at heq
    exact congrArg Prod.fst (List.singleton_inj.mp heq)
  · intro hfd
    constructor
    · intro o ho hdst
      rw [handleRequest_owner hips ho hdst]
      exact ⟨respFrame u o.1 recv, by simp [Out.frame, hfd o ho hdst], rfl, rfl, rfl⟩
    · intro hno
      rw [handleRequest_none hno]
      exact ⟨rfl, rfl⟩

def requestFor (ip : IPAddr) : EtherPkt :=
  { EtherPkt.uninit ⟨0, 0⟩ "ss" with
    type := 0, arpPkt := ArpPkt.createReqPkt ⟨"S", "10.0.1.5", "255.255.255.0", "ss", "cs1"⟩ ip }

def nearRun : List Event := heard (requestFor "10.0.1.1")

def nearMove : Move State Event Out := ((machine routerR).moves nearRun).get ⟨2, by decide⟩

theorem request_answered_iff_near :
    Answered routerR nearMove (ifaceR1, ⟨3⟩) (requestFor "10.0.1.1") ↔
      ∀ o ∈ routerR.ifaces, o.1.ipAddr = "10.0.1.1" → o.2.fd = 3 :=
  request_answered_iff (by decide) ((machine routerR).path nearRun (by decide))
    (List.get_mem _ _) rfl rfl rfl rfl

def farRun : List Event := heard (requestFor "10.0.2.1")

def farMove : Move State Event Out := ((machine routerR).moves farRun).get ⟨2, by decide⟩

-- the router answers for R2 on R2 although the request came in on R1
theorem far_request_answered_away :
    ¬ ∀ (cfg : Config) (ms : List (Move State Event Out)) (s : State) (h : List Out),
      Path (machine cfg) ms s h → (cfg.ifaces.map (fun i => i.1.ipAddr)).Nodup → ∀ mv ∈ ms,
      ∀ i rest buffer recv now u, mv.before.pc = .ifaces (i :: rest) buffer →
      mv.event = .recv (.frame recv) now u → recv.type = 0 → recv.arpPkt.op = 0 →
      Answered cfg mv i recv := by
  intro hall
  have hanswered := hall routerR _ _ _ ((machine routerR).path farRun (by decide)) (by decide)
    farMove (List.get_mem _ _) (ifaceR1, ⟨3⟩) [(ifaceR2, ⟨4⟩)] _ (requestFor "10.0.2.1") 0 ⟨0, 0⟩
    rfl rfl rfl rfl
  obtain ⟨pkt, hframes, -⟩ := hanswered.1 (ifaceR2, ⟨4⟩) (by decide) rfl
  have hfd : (farMove.out.filterMap Out.frame).map Prod.fst = [4] := by decide
  rw [hframes] at hfd
  exact absurd hfd (by simp)

end Request

section Source

structure LeavesRight (cfg : Config) (mv : Move State Event Out) : Prop where
  source : ∀ fd pkt, (fd, pkt) ∈ mv.out.filterMap Out.frame →
    ∀ k ∈ cfg.ifaces, k.2.fd = fd → pkt.macSrc = k.1.macAddr
  recorded : ∀ n fd pkt pp, .flush n fd pkt ∈ mv.out → mv.before.store.pq[n]? = some pp →
    ∀ k ∈ cfg.ifaces, k.1.ifaceName = pp.ifaceName → k.2.fd = fd

def OnRecorded (cfg : Config) (mv : Move State Event Out) : Prop :=
  ∀ i recv, Hears mv i recv → recv.type = 0 → recv.arpPkt.op ≠ 0 →
    isIntendedIpDestination cfg recv.arpPkt.dstIp = true →
    ∀ n pp, firstPending recv.arpPkt.srcIp mv.before.store.pq = some (n, pp) →
      pp.ifaceName = i.1.ifaceName

structure Distinct (cfg : Config) : Prop where
  names : (cfg.ifaces.map (fun i => i.1.ifaceName)).Nodup
  macs : (cfg.ifaces.map (fun i => i.1.macAddr)).Nodup
  fds : (cfg.ifaces.map (fun i => i.2.fd)).Nodup

def FromIface (cfg : Config) (f : Port × EtherPkt) : Prop :=
  ∃ o ∈ cfg.ifaces, f.1 = o.2.fd ∧ f.2.macSrc = o.1.macAddr

theorem Distinct.source (hd : Distinct cfg) {fd : Port} {pkt : EtherPkt}
    (hf : FromIface cfg (fd, pkt)) {k : IfaceSocketPair} (hk : k ∈ cfg.ifaces) (heq : k.2.fd = fd) :
    pkt.macSrc = k.1.macAddr := by
  obtain ⟨o, ho, hfd, hmac⟩ := hf
  obtain rfl := List.inj_on_of_nodup_map hd.fds hk ho (heq.trans hfd)
  exact hmac

theorem fromIface_sends {srcIp dstIp : IPAddr} {data : String}
    (hs : Sends cfg st srcIp dstIp data st' out) : ∀ f ∈ out.filterMap Out.frame, FromIface cfg f := by
  intro f hf
  cases hs with
  | cached u hop hr | queued u hop hr =>
    obtain rfl := List.mem_singleton.mp hf
    exact ⟨hop.iface, (getIface_some (resolve_ok hr)).1, rfl, rfl⟩

theorem fromIface_commands (hc : Commands cfg st st' out) :
    ∀ f ∈ out.filterMap Out.frame, FromIface cfg f := by
  cases hc with
  | other => simp [Out.frame]
  | send line dst data hr hs => simpa [Out.frame] using fromIface_sends hs

theorem fromIface_replies : ∀ f ∈ ((owners cfg recv.arpPkt.dstIp).map fun o =>
    Out.reply o.2.fd (respFrame u o.1 recv)).filterMap Out.frame, FromIface cfg f := by
  intro f hf
  obtain ⟨r, hr, hframe⟩ := List.mem_filterMap.mp hf
  obtain ⟨o, ho, rfl⟩ := List.mem_map.mp hr
  obtain rfl := Option.some.inj hframe
  exact ⟨o, List.mem_of_mem_filter ho, rfl, rfl⟩

def Plain (cfg : Config) (out : List Out) : Prop :=
  (∀ f ∈ out.filterMap Out.frame, FromIface cfg f) ∧ ∀ n fd pkt, .flush n fd pkt ∉ out

structure Flushes (cfg : Config) (st : Store) (recv : EtherPkt) (n : Nat) (pp : PendingPkt)
    (o : IfaceSocketPair) : Prop where
  type : recv.type = 0
  op : recv.arpPkt.op ≠ 0
  intended : isIntendedIpDestination cfg recv.arpPkt.dstIp = true
  first : firstPending recv.arpPkt.srcIp st.pq = some (n, pp)
  iface : getIface cfg pp.ifaceName = some o

theorem plain_nil : Plain cfg [] := by simp [Plain]

theorem plain_handle (hp : Plain cfg out) : Plain cfg (.handle i recv :: out) := by
  simpa [Plain, Out.frame] using hp

theorem plain_sends {srcIp dstIp : IPAddr} {data : String}
    (hs : Sends cfg st srcIp dstIp data st' out) : Plain cfg out :=
  ⟨fromIface_sends hs, by cases hs <;> simp⟩

theorem plain_commands (hc : Commands cfg st st' out) : Plain cfg out := by
  refine ⟨fromIface_commands hc, ?_⟩
  cases hc with
  | other => simp
  | send line dst data hr hs => simpa using (plain_sends hs).2

theorem plain_or_flush (hs : Handles cfg st i recv st' out) :
    Plain cfg out ∨ ∃ n pp o u, Flushes cfg st recv n pp o ∧
      out = [.flush n i.2.fd (flushFrame u o.1 recv pp)] := by
  cases hs with
  | ignored => exact Or.inl plain_nil
  | request => exact Or.inl ⟨fromIface_replies, by simp⟩
  | flush now u n pp o ht ho hd hp hi =>
    exact Or.inr ⟨n, pp, o, u, ⟨ht, ho, hd, hp, hi⟩, rfl⟩
  | deliver => exact Or.inl (by simp [Plain, Out.frame])
  | forward _ _ _ hs => exact Or.inl (plain_sends hs)

theorem plain_or_flush_of_settle {pc : Pc} :
    Plain cfg (settle s pc [.handle i recv] (handlePkt cfg s.store i now u recv)).2 ∨
      ∃ n pp o u', Flushes cfg s.store recv n pp o ∧
        (settle s pc [.handle i recv] (handlePkt cfg s.store i now u recv)).2 =
          [.handle i recv, .flush n i.2.fd (flushFrame u' o.1 recv pp)] := by
  cases hk : handlePkt cfg s.store i now u recv with
  | error f => exact Or.inl plain_nil
  | ok r =>
    rcases plain_or_flush (handles_of_handlePkt hk) with hplain | ⟨n, pp, o, u', hf, hout⟩
    · exact Or.inl (plain_handle hplain)
    · exact Or.inr ⟨n, pp, o, u', hf, congrArg (Out.handle i recv :: ·) hout⟩

theorem plain_or_flush_of_step (hs : step cfg mv.before mv.event = some (mv.after, mv.out)) :
    Plain cfg mv.out ∨ ∃ i recv n pp o u, Hears mv i recv ∧
      Flushes cfg mv.before.store recv n pp o ∧
      mv.out = [.handle i recv, .flush n i.2.fd (flushFrame u o.1 recv pp)] := by
  generalize hev : mv.event = e at hs
  generalize ha : mv.after = s' at hs
  generalize ho : mv.out = out at hs
  cases turn_of_step hs with
  | sweep | frames | skip => exact Or.inl plain_nil
  | stdin bytes u _ hr =>
    rcases (readStdin_some hr).1 with ⟨-, rfl⟩ | hc
    · exact Or.inl plain_nil
    · exact Or.inl (plain_commands hc)
  | recv i rest buffer r now u hpc =>
    cases r with
    | eof => exact Or.inl plain_nil
    | error =>
      refine plain_or_flush_of_settle.imp id ?_
      rintro ⟨n, pp, o, u', hf, hout⟩
      exact ⟨i, buffer, n, pp, o, u', ⟨rest, buffer, .error, now, u, hpc, hev, rfl⟩, hf, hout⟩
    | frame pkt =>
      refine plain_or_flush_of_settle.imp id ?_
      rintro ⟨n, pp, o, u', hf, hout⟩
      exact ⟨i, pkt, n, pp, o, u', ⟨rest, buffer, .frame pkt, now, u, hpc, hev, rfl⟩, hf, hout⟩

theorem leavesRight_of_plain (hd : Distinct cfg) (hp : Plain cfg mv.out) : LeavesRight cfg mv where
  source := fun _ _ hf _ hk heq => hd.source (hp.1 _ hf) hk heq
  recorded := fun n fd pkt _ hflush => absurd hflush (hp.2 n fd pkt)

theorem Hears.mem_ifaces (p : Path (machine cfg) ms mv.before mv.log) (hh : Hears mv i recv) :
    i ∈ cfg.ifaces := by
  obtain ⟨rest, buffer, r, now, u, hpc, -, -⟩ := hh
  exact rest_subset p hpc List.mem_cons_self

theorem iface_of_frame (p : Path (machine cfg) ms mv.before mv.log)
    (hs : step cfg mv.before mv.event = some (mv.after, mv.out)) {f : Port × EtherPkt}
    (hf : f ∈ mv.out.filterMap Out.frame) : ∃ i ∈ cfg.ifaces, f.1 = i.2.fd := by
  rcases plain_or_flush_of_step hs with hplain | ⟨i, recv, n, pp, o, u, hh, -, hout⟩
  · obtain ⟨i, hi, hfd, -⟩ := hplain.1 f hf
    exact ⟨i, hi, hfd⟩
  · rw [hout] at hf
    obtain rfl := List.mem_singleton.mp hf
    exact ⟨i, hh.mem_ifaces p, rfl⟩

theorem leavesRight_of_flush (hd : Distinct cfg) (hi : i ∈ cfg.ifaces) {n : Nat}
    {pp : PendingPkt} {o : IfaceSocketPair} (hf : Flushes cfg mv.before.store recv n pp o)
    (hout : mv.out = [.handle i recv, .flush n i.2.fd (flushFrame u o.1 recv pp)])
    (hname : pp.ifaceName = i.1.ifaceName) : LeavesRight cfg mv := by
  obtain ⟨hmem, ho⟩ := getIface_some hf.iface
  obtain rfl : o = i := List.inj_on_of_nodup_map hd.names hmem hi (ho.trans hname)
  constructor
  · intro fd pkt hframe k hk heq
    rw [hout] at hframe
    obtain ⟨rfl, rfl⟩ := Prod.mk.inj (List.mem_singleton.mp hframe)
    obtain rfl := List.inj_on_of_nodup_map hd.fds hk hi heq
    rfl
  · intro n' fd pkt pp' hflush hpq k hk hkname
    rw [hout] at hflush
    obtain ⟨rfl, rfl, -⟩ : n' = n ∧ fd = o.2.fd ∧ pkt = flushFrame u o.1 recv pp := by
      simpa using hflush
    obtain rfl := Option.some.inj (hpq.symm.trans (firstPending_some hf.first).1)
    obtain rfl := List.inj_on_of_nodup_map hd.names hk hi (hkname.trans hname)
    rfl

theorem flush_of_hears (hs : step cfg mv.before mv.event = some (mv.after, mv.out))
    (hh : Hears mv i recv) {n : Nat} {pp : PendingPkt} {o : IfaceSocketPair}
    (hf : Flushes cfg mv.before.store recv n pp o) :
    ∃ u, mv.out = [.handle i recv, .flush n i.2.fd (flushFrame u o.1 recv pp)] := by
  obtain ⟨rest, buffer, r, now, u, hpc, hev, hr⟩ := hh
  rw [hev] at hs
  have hk : handlePkt cfg mv.before.store i now u recv =
      .ok ({ mv.before.store.learn now recv.arpPkt with pq := mv.before.store.pq.eraseIdx n },
        [.flush n i.2.fd (flushFrame u o.1 recv pp)]) := by
    simp only [handlePkt, hf.type, if_true, if_neg hf.op, handleResponse, hf.intended, hf.first,
      hf.iface]
  exact ⟨u, (out_of_hears hpc hr hs hk).2⟩

theorem leaves_right_iff (hd : Distinct cfg) (p : Path (machine cfg) ms s h) (hmv : mv ∈ ms) :
    LeavesRight cfg mv ↔ OnRecorded cfg mv := by
  obtain ⟨ms', -, hp, hs⟩ := p.before hmv
  constructor
  · intro hl i recv hh ht ho hint n pp hfirst
    have hpq := (firstPending_some hfirst).1
    obtain ⟨o, nextHop, hw⟩ := wellFormed_of_mem hp (List.mem_of_getElem? hpq)
    obtain ⟨hmem, hname⟩ := getIface_some hw.found
    obtain ⟨u, hout⟩ := flush_of_hears hs hh ⟨ht, ho, hint, hfirst, hw.found⟩
    have hflush : .flush n i.2.fd (flushFrame u o.1 recv pp) ∈ mv.out := by simp [hout]
    have hfd := hl.recorded n _ _ pp hflush hpq o hmem hname
    obtain rfl := List.inj_on_of_nodup_map hd.fds hmem (hh.mem_ifaces hp) hfd
    exact hname.symm
  · intro hon
    rcases plain_or_flush_of_step hs with hplain | ⟨i, recv, n, pp, o, u, hh, hf, hout⟩
    · exact leavesRight_of_plain hd hplain
    · have hname := hon i recv hh hf.type hf.op hf.intended n pp hf.first
      exact leavesRight_of_flush hd (hh.mem_ifaces hp) hf hout hname

def responseFromD : EtherPkt :=
  respFrame ⟨0, 0⟩ ⟨"D", "10.0.2.9", "255.255.255.0", "dd", "cs2"⟩
    { EtherPkt.uninit ⟨0, 0⟩ "r2" with
      type := 0, arpPkt := ArpPkt.createReqPkt ifaceR2 "10.0.2.9" }

theorem distinct_routerR : Distinct routerR := ⟨by decide, by decide, by decide⟩

def rightRun : List Event :=
  queuedRun ++ [.skip, .sweep 0, .frames ⟨0, 0⟩, .skip, .recv (.frame responseFromD) 0 ⟨0, 0⟩]

def rightMove : Move State Event Out := ((machine routerR).moves rightRun).get ⟨7, by decide⟩

theorem leaves_right_iff_right : LeavesRight routerR rightMove ↔ OnRecorded routerR rightMove :=
  leaves_right_iff distinct_routerR ((machine routerR).path rightRun (by decide)) (List.get_mem _ _)

def crossedRun : List Event :=
  queuedRun ++ [.skip, .sweep 0, .frames ⟨0, 0⟩, .recv (.frame responseFromD) 0 ⟨0, 0⟩]

def crossedMove : Move State Event Out := ((machine routerR).moves crossedRun).get ⟨6, by decide⟩

-- the packet that waits on R2 leaves on R1, where the response came in, under the MAC of R2
theorem crossed_response_crosses :
    ¬ ∀ (cfg : Config) (ms : List (Move State Event Out)) (s : State) (h : List Out),
      Path (machine cfg) ms s h → Distinct cfg → ∀ mv ∈ ms, LeavesRight cfg mv := by
  intro hall
  have hl := hall routerR _ _ _ ((machine routerR).path crossedRun (by decide)) distinct_routerR
    crossedMove (List.get_mem _ _)
  have hmac := hl.source 3 (flushFrame ⟨0, 0⟩ ifaceR2 responseFromD queuedPkt) (by decide)
    (ifaceR1, ⟨3⟩) (by decide) rfl
  exact absurd hmac (by decide)

end Source

end NetworkEmulator.Station
