import NetworkEmulator.Station.Send
import NetworkEmulator.Foundation.Run

namespace NetworkEmulator.Station

open Transition

section Handlers
variable (cfg : Config)

def Store.learn (st : Store) (now : Milliseconds) (arpPkt : ArpPkt) : Store :=
  { st with arp := st.arp.addMapping arpPkt.srcIp arpPkt.srcMac now }

def respFrame (u : Uninit) (i : Iface) (recv : EtherPkt) : EtherPkt :=
  { EtherPkt.uninit u i.macAddr with
    macDst := recv.macSrc, type := 0
    arpPkt := ArpPkt.createRespPkt recv.arpPkt i.ipAddr i.macAddr }

def flushFrame (u : Uninit) (i : Iface) (recv : EtherPkt) (pp : PendingPkt) : EtherPkt :=
  { EtherPkt.uninit u i.macAddr with
    macDst := recv.arpPkt.srcMac, type := 1
    ipPkt := IpPkt.createPkt pp.srcIpaddr pp.dstIpaddr pp.data }

def handleRequest (now : Milliseconds) (u : Uninit) (recv : EtherPkt) :
    List IfaceSocketPair → Store → Store × List Out
  | [], st => (st, [])
  | i :: ifaces, st =>
    if recv.arpPkt.dstIp = i.1.ipAddr then
      let r := handleRequest now u recv ifaces (st.learn now recv.arpPkt)
      (r.1, .reply i.2.fd (respFrame u i.1 recv) :: r.2)
    else handleRequest now u recv ifaces st

def firstPending (ip : IPAddr) : PendingQueue → Option (Nat × PendingPkt)
  | [] => none
  | pp :: pq =>
    if pp.nextHopIpaddr = ip then some (0, pp)
    else (firstPending ip pq).map fun r => (r.1 + 1, r.2)

-- the break leaves the loop over pq_ after one entry
def handleResponse (st : Store) (fd : Port) (now : Milliseconds) (u : Uninit) (recv : EtherPkt) :
    Except Fault (Store × List Out) :=
  if isIntendedIpDestination cfg recv.arpPkt.dstIp then
    match firstPending recv.arpPkt.srcIp st.pq with
    | none => .ok (st, [])
    | some (k, pp) =>
      match getIface cfg pp.ifaceName with
      | none => .error .nullIface
      | some i =>
        .ok ({ st.learn now recv.arpPkt with pq := st.pq.eraseIdx k },
          [.flush k fd (flushFrame u i.1 recv pp)])
  else .ok (st, [])

def handleIp (st : Store) (u : Uninit) (recv : EtherPkt) : Except Fault (Store × List Out) :=
  if isIntendedIpDestination cfg recv.ipPkt.dstIp then
    .ok (st, [.deliver (getIfaceForIp cfg recv.ipPkt.srcIp) recv.ipPkt])
  else if cfg.isRouter then
    sendEtherPkt cfg st u recv.ipPkt.srcIp recv.ipPkt.dstIp recv.ipPkt.data
  else .ok (st, [])

def handlePkt (st : Store) (i : IfaceSocketPair) (now : Milliseconds) (u : Uninit)
    (recv : EtherPkt) : Except Fault (Store × List Out) :=
  if recv.type = 0 then
    if recv.arpPkt.op = 0 then .ok (handleRequest now u recv cfg.ifaces st)
    else handleResponse cfg st i.2.fd now u recv
  else handleIp cfg st u recv

end Handlers

section Console
variable (cfg : Config)

def msgSize : Nat := 100

-- msg is read as a C string: a full chunk without a NUL is read past its end
def cString (bytes : List Char) : Except Fault (List Char) :=
  let s := bytes.takeWhile (· ≠ '\x00')
  if s.length < msgSize then .ok s else .error .overrun

-- operator>> on a string stream: the next word and what is left of the line
def extract (line : List Char) : List Char × List Char :=
  let s := line.dropWhile Routing.isSpace
  (s.takeWhile (!Routing.isSpace ·), s.dropWhile (!Routing.isSpace ·))

structure Menu where
  store : Store
  quit : Bool
  out : List Out

-- "debug" and "show" change nothing here: they toggle the log and print
def menuCommands (st : Store) (u : Uninit) (cmd : List Char) : Except Fault Menu := do
  let line := cmd.takeWhile (· ≠ '\n')
  let ran := Out.command (String.ofList line)
  if line = "debug".toList then .ok ⟨st, false, [ran]⟩
  else if line = "off".toList then .ok ⟨st, true, [ran]⟩
  else
    let (buf, rest) := extract line
    if buf = "send".toList ∧ cfg.isRouter = false then
      let (dst, msg) := extract rest
      let (st, out) ← sendCmd cfg st u (String.ofList dst) (String.ofList msg)
      .ok ⟨st, false, ran :: out⟩
    else .ok ⟨st, false, [ran]⟩

end Console

-- where start() stands: before monitor_cache, in select, or in the loop over the interfaces with
-- the ones left to look at and the contents of recv_ether_pkt
inductive Pc where
  | top
  | select
  | ifaces (rest : List IfaceSocketPair) (recv : EtherPkt)
  | fault (f : Fault)

structure State where
  store : Store
  quit : Bool
  pc : Pc

-- error leaves recv_ether_pkt as it was; pkt is what a read leaves there
inductive Received where
  | eof
  | error
  | frame (pkt : EtherPkt)

inductive Event where
  | sweep (now : Milliseconds)
  | stdin (bytes : Option (List Char)) (u : Uninit)
  | frames (u : Uninit)
  | skip
  | recv (r : Received) (now : Milliseconds) (u : Uninit)

def next (rest : List IfaceSocketPair) (recv : EtherPkt) : Pc :=
  if rest.isEmpty then .top else .ifaces rest recv

def settle (s : State) (pc : Pc) (head : List Out) :
    Except Fault (Store × List Out) → State × List Out
  | .error f => ({ s with pc := .fault f }, [])
  | .ok (store, out) => ({ s with store := store, pc := pc }, head ++ out)

section Loop
variable (cfg : Config)

def sweep (s : State) (now : Milliseconds) : Option (State × List Out) :=
  if s.quit = false ∧ cfg.ifaces ≠ [] then
    some ({ s with store := { s.store with arp := s.store.arp.monitorCache now }, pc := .select }, [])
  else none

def readStdin (s : State) (u : Uninit) : Option (List Char) → Option (State × List Out)
  | none => some ({ s with pc := .top }, [])
  | some bytes =>
    if 0 < bytes.length ∧ bytes.length ≤ msgSize then
      match cString bytes >>= menuCommands cfg s.store u with
      | .error f => some ({ s with pc := .fault f }, [])
      | .ok m => some ({ store := m.store, quit := s.quit || m.quit, pc := .top }, m.out)
    else none

def readIface (s : State) (i : IfaceSocketPair) (rest : List IfaceSocketPair) (buffer : EtherPkt)
    (now : Milliseconds) (u : Uninit) : Received → State × List Out
  | .eof => ({ s with quit := true, pc := next rest buffer }, [])
  | .error =>
    settle s (next rest buffer) [.handle i buffer] (handlePkt cfg s.store i now u buffer)
  | .frame pkt => settle s (next rest pkt) [.handle i pkt] (handlePkt cfg s.store i now u pkt)

def step (s : State) (e : Event) : Option (State × List Out) :=
  match s.pc, e with
  | .top, .sweep now => sweep cfg s now
  | .select, .stdin bytes u => readStdin cfg s u bytes
  | .select, .frames u => some ({ s with pc := next cfg.ifaces (EtherPkt.uninit u "") }, [])
  | .ifaces (_ :: rest) buffer, .skip => some ({ s with pc := next rest buffer }, [])
  | .ifaces (i :: rest) buffer, .recv r now u => some (readIface cfg s i rest buffer now u r)
  | _, _ => none

def machine : Machine State Event Out where
  init := { store := { arp := ∅, pq := [] }, quit := false, pc := .top }
  step := step cfg

end Loop

def typed (line : String) : List Event := [.sweep 0, .stdin (some line.toList) ⟨0, 0⟩]

def heard (pkt : EtherPkt) : List Event :=
  [.sweep 0, .frames ⟨0, 0⟩, .recv (.frame pkt) 0 ⟨0, 0⟩]

def ifaceA : Iface := ⟨"A", "10.0.0.1", "255.255.255.0", "aa", "cs1"⟩

def ifaceB : Iface := ⟨"B", "10.0.0.2", "255.255.255.0", "bb", "cs1"⟩

def hostA : Config :=
  { ifaces := [(ifaceA, ⟨3⟩)], routes := [⟨"10.0.0.0", "0.0.0.0", "255.255.255.0", "A"⟩]
    hosts := [⟨"B", "10.0.0.2"⟩], isRouter := false }

def requestFromB : EtherPkt :=
  { EtherPkt.uninit ⟨0, 0⟩ "bb" with
    type := 0, arpPkt := ArpPkt.createReqPkt ifaceB ifaceA.ipAddr }

def responseFromB : EtherPkt :=
  respFrame ⟨0, 0⟩ ifaceB
    { EtherPkt.uninit ⟨0, 0⟩ "aa" with
      type := 0, arpPkt := ArpPkt.createReqPkt ifaceA ifaceB.ipAddr }

def ifaceR1 : Iface := ⟨"R1", "10.0.1.1", "255.255.255.0", "r1", "cs1"⟩

def ifaceR2 : Iface := ⟨"R2", "10.0.2.1", "255.255.255.0", "r2", "cs2"⟩

def routerR : Config :=
  { ifaces := [(ifaceR1, ⟨3⟩), (ifaceR2, ⟨4⟩)]
    routes := [⟨"10.0.1.0", "0.0.0.0", "255.255.255.0", "R1"⟩,
      ⟨"10.0.2.0", "0.0.0.0", "255.255.255.0", "R2"⟩]
    hosts := [], isRouter := true }

def ipFrameTo (macDst : MacAddr) : EtherPkt :=
  { EtherPkt.uninit ⟨0, 0⟩ "ss" with
    macDst := macDst, type := 1, ipPkt := IpPkt.createPkt "10.0.1.5" "10.0.2.9" " hi" }

variable {cfg : Config} {st st' : Store} {s s' : State} {i : IfaceSocketPair} {recv : EtherPkt}
  {out : List Out}

def owners (cfg : Config) (ip : IPAddr) : List IfaceSocketPair :=
  cfg.ifaces.filter (fun i => ip = i.1.ipAddr)

theorem owners_eq_nil {ip : IPAddr} :
    owners cfg ip = [] ↔ isIntendedIpDestination cfg ip = false := by
  simp [owners, isIntendedIpDestination]

@[simp] theorem learn_pq (now : Milliseconds) (arpPkt : ArpPkt) :
    (st.learn now arpPkt).pq = st.pq := rfl

theorem learn_learn (now : Milliseconds) (arpPkt : ArpPkt) :
    (st.learn now arpPkt).learn now arpPkt = st.learn now arpPkt := by
  simp only [Store.learn, ArpCache.addMapping_addMapping]

theorem handleRequest_eq (now : Milliseconds) (u : Uninit) (ifaces : List IfaceSocketPair)
    (st : Store) :
    handleRequest now u recv ifaces st =
      (if ifaces.any (fun i => recv.arpPkt.dstIp = i.1.ipAddr) then st.learn now recv.arpPkt else st,
        (ifaces.filter (fun i => recv.arpPkt.dstIp = i.1.ipAddr)).map
          (fun i => .reply i.2.fd (respFrame u i.1 recv))) := by
  induction ifaces generalizing st with
  | nil => rfl
  | cons i ifaces ih =>
    rw [List.any_cons]
    by_cases h : recv.arpPkt.dstIp = i.1.ipAddr
    · simp [handleRequest, h, ih, learn_learn]
    · rw [handleRequest, if_neg h, ih, decide_eq_false h, Bool.false_or,
        List.filter_cons_of_neg (by simpa using h)]

theorem firstPending_some {ip : IPAddr} {pq : PendingQueue} {k : Nat} {pp : PendingPkt}
    (h : firstPending ip pq = some (k, pp)) :
    pq[k]? = some pp ∧ pp.nextHopIpaddr = ip ∧ ∀ pp' ∈ pq.take k, pp'.nextHopIpaddr ≠ ip := by
  induction pq generalizing k with
  | nil => simp [firstPending] at h
  | cons q pq ih =>
    by_cases hq : q.nextHopIpaddr = ip
    · simp only [firstPending, hq, if_true, Option.some.injEq, Prod.mk.injEq] at h
      obtain ⟨rfl, rfl⟩ := h
      exact ⟨rfl, hq, by simp⟩
    · simp only [firstPending, hq, if_false, Option.map_eq_some_iff] at h
      obtain ⟨⟨j, pp'⟩, hj, he⟩ := h
      obtain ⟨rfl, rfl⟩ := Prod.mk.inj he
      obtain ⟨hget, hkey, hno⟩ := ih hj
      refine ⟨by simpa using hget, hkey, ?_⟩
      intro r hr
      rcases List.mem_cons.mp hr with rfl | hr
      · exact hq
      · exact hno r hr

theorem firstPending_none {ip : IPAddr} {pq : PendingQueue} :
    firstPending ip pq = none ↔ ∀ pp ∈ pq, pp.nextHopIpaddr ≠ ip := by
  induction pq with
  | nil => simp [firstPending]
  | cons q pq ih =>
    by_cases hq : q.nextHopIpaddr = ip
    · simp [firstPending, hq]
    · simp [firstPending, hq, ih]

def Ignored (cfg : Config) (st : Store) (recv : EtherPkt) : Prop :=
  if recv.type = 0 then
    isIntendedIpDestination cfg recv.arpPkt.dstIp = false ∨
      (recv.arpPkt.op ≠ 0 ∧ ∀ pp ∈ st.pq, pp.nextHopIpaddr ≠ recv.arpPkt.srcIp)
  else isIntendedIpDestination cfg recv.ipPkt.dstIp = false ∧ cfg.isRouter = false

inductive Handles (cfg : Config) (st : Store) (i : IfaceSocketPair) (recv : EtherPkt) :
    Store → List Out → Prop
  | ignored (h : Ignored cfg st recv) : Handles cfg st i recv st []
  | request (now : Milliseconds) (u : Uninit) (ht : recv.type = 0) (ho : recv.arpPkt.op = 0)
      (hd : isIntendedIpDestination cfg recv.arpPkt.dstIp = true) :
      Handles cfg st i recv (st.learn now recv.arpPkt)
        ((owners cfg recv.arpPkt.dstIp).map fun o => .reply o.2.fd (respFrame u o.1 recv))
  | flush (now : Milliseconds) (u : Uninit) (k : Nat) (pp : PendingPkt) (o : IfaceSocketPair)
      (ht : recv.type = 0) (ho : recv.arpPkt.op ≠ 0)
      (hd : isIntendedIpDestination cfg recv.arpPkt.dstIp = true)
      (hp : firstPending recv.arpPkt.srcIp st.pq = some (k, pp))
      (hi : getIface cfg pp.ifaceName = some o) :
      Handles cfg st i recv { st.learn now recv.arpPkt with pq := st.pq.eraseIdx k }
        [.flush k i.2.fd (flushFrame u o.1 recv pp)]
  | deliver (ht : recv.type ≠ 0) (hd : isIntendedIpDestination cfg recv.ipPkt.dstIp = true) :
      Handles cfg st i recv st [.deliver (getIfaceForIp cfg recv.ipPkt.srcIp) recv.ipPkt]
  | forward {sent : Store} {ws : List Out} (ht : recv.type ≠ 0)
      (hd : isIntendedIpDestination cfg recv.ipPkt.dstIp = false) (hr : cfg.isRouter = true)
      (hs : Sends cfg st recv.ipPkt.srcIp recv.ipPkt.dstIp recv.ipPkt.data sent ws) :
      Handles cfg st i recv sent ws

theorem handles_request (now : Milliseconds) (u : Uninit) (ht : recv.type = 0)
    (ho : recv.arpPkt.op = 0) :
    Handles cfg st i recv (handleRequest now u recv cfg.ifaces st).1
      (handleRequest now u recv cfg.ifaces st).2 := by
  rw [handleRequest_eq]
  cases hd : isIntendedIpDestination cfg recv.arpPkt.dstIp with
  | true =>
    have hany := hd
    unfold isIntendedIpDestination at hany
    rw [if_pos hany]
    exact .request now u ht ho hd
  | false =>
    have hany := Bool.eq_false_iff.mp hd
    unfold isIntendedIpDestination at hany
    have hnil := owners_eq_nil.mpr hd
    unfold owners at hnil
    rw [if_neg hany, hnil]
    exact .ignored (by simp [Ignored, ht, hd])

theorem handles_response {now : Milliseconds} {u : Uninit} (ht : recv.type = 0)
    (ho : recv.arpPkt.op ≠ 0) (h : handleResponse cfg st i.2.fd now u recv = .ok (st', out)) :
    Handles cfg st i recv st' out := by
  unfold handleResponse at h
  split at h
  · rename_i hd
    split at h
    · rename_i hp
      obtain ⟨rfl, rfl⟩ := Prod.mk.inj (Except.ok.inj h)
      have hno := firstPending_none.mp hp
      refine .ignored ?_
      rw [Ignored, if_pos ht]
      exact Or.inr ⟨ho, hno⟩
    · rename_i k pp hp
      split at h
      · cases h
      · rename_i o hi
        obtain ⟨rfl, rfl⟩ := Prod.mk.inj (Except.ok.inj h)
        exact .flush now u k pp o ht ho hd hp hi
  · rename_i hd
    obtain ⟨rfl, rfl⟩ := Prod.mk.inj (Except.ok.inj h)
    refine .ignored ?_
    rw [Ignored, if_pos ht]
    exact Or.inl (Bool.eq_false_iff.mpr hd)

theorem handles_ip {u : Uninit} (ht : recv.type ≠ 0)
    (h : handleIp cfg st u recv = .ok (st', out)) : Handles cfg st i recv st' out := by
  unfold handleIp at h
  split at h
  · rename_i hd
    obtain ⟨rfl, rfl⟩ := Prod.mk.inj (Except.ok.inj h)
    exact .deliver ht hd
  · rename_i hd
    have hd' := Bool.eq_false_iff.mpr hd
    split at h
    · rename_i hr
      exact .forward ht hd' hr (sends_of_sendEtherPkt h)
    · rename_i hr
      obtain ⟨rfl, rfl⟩ := Prod.mk.inj (Except.ok.inj h)
      refine .ignored ?_
      rw [Ignored, if_neg ht]
      exact ⟨hd', Bool.eq_false_iff.mpr hr⟩

theorem handles_of_handlePkt {now : Milliseconds} {u : Uninit}
    (h : handlePkt cfg st i now u recv = .ok (st', out)) : Handles cfg st i recv st' out := by
  unfold handlePkt at h
  split at h
  · rename_i ht
    split at h
    · rename_i ho
      obtain ⟨rfl, rfl⟩ := Prod.ext_iff.mp (Except.ok.inj h)
      exact handles_request now u ht ho
    · rename_i ho
      exact handles_response ht ho h
  · rename_i ht
    exact handles_ip ht h

theorem handle_notMem_sends {srcIp dstIp : IPAddr} {data : String} {j : IfaceSocketPair}
    {pkt : EtherPkt} (hs : Sends cfg st srcIp dstIp data st' out) : .handle j pkt ∉ out := by
  cases hs with
  | cached | queued => simp

theorem handle_notMem_handles {j : IfaceSocketPair} {pkt : EtherPkt}
    (hs : Handles cfg st i recv st' out) : .handle j pkt ∉ out := by
  cases hs with
  | ignored | request | flush | deliver => simp
  | forward _ _ _ hs => exact handle_notMem_sends hs

inductive Commands (cfg : Config) (st : Store) : Store → List Out → Prop
  | other (line : String) : Commands cfg st st [.command line]
  | send {sent : Store} {ws : List Out} (line : String) (dst : IPAddr) (data : String)
      (hr : cfg.isRouter = false) (hs : Sends cfg st "" dst data sent ws) :
      Commands cfg st sent (.command line :: ws)

inductive Effect (cfg : Config) (st : Store) : Store → List Out → Prop
  | quiet : Effect cfg st st []
  | sweep (now : Milliseconds) : Effect cfg st { st with arp := st.arp.monitorCache now } []
  | console {sent : Store} {ws : List Out} (hc : Commands cfg st sent ws) : Effect cfg st sent ws
  | handle {sent : Store} {ws : List Out} (i : IfaceSocketPair) (recv : EtherPkt)
      (hs : Handles cfg st i recv sent ws) : Effect cfg st sent (.handle i recv :: ws)

theorem handle_notMem_commands (hc : Commands cfg st st' out) : .handle i recv ∉ out := by
  cases hc with
  | other => simp
  | send line dst data hr hs => simpa using handle_notMem_sends hs

theorem effect_settle {pc : Pc} {r : Except Fault (Store × List Out)}
    (h : ∀ st' out, r = .ok (st', out) → Handles cfg s.store i recv st' out) :
    Effect cfg s.store (settle s pc [.handle i recv] r).1.store
      (settle s pc [.handle i recv] r).2 := by
  cases r with
  | error f => exact .quiet
  | ok r => exact .handle i recv (h r.1 r.2 rfl)

theorem commands_of_menu {u : Uninit} {cmd : List Char} {m : Menu}
    (h : menuCommands cfg st u cmd = .ok m) : Commands cfg st m.store m.out := by
  unfold menuCommands at h
  simp only at h
  split at h
  · obtain rfl := Except.ok.inj h
    exact .other _
  · split at h
    · obtain rfl := Except.ok.inj h
      exact .other _
    · split at h
      · rename_i hcmd
        obtain ⟨r, hr, h⟩ := Fault.bind_ok h
        obtain rfl := Except.ok.inj h
        unfold sendCmd at hr
        split at hr
        · obtain rfl := Except.ok.inj hr
          exact .other _
        · exact .send _ _ _ hcmd.2 (sends_of_sendEtherPkt hr)
      · obtain rfl := Except.ok.inj h
        exact .other _

theorem readStdin_some {u : Uninit} {bytes : Option (List Char)}
    (h : readStdin cfg s u bytes = some (s', out)) :
    ((s'.store = s.store ∧ out = []) ∨ Commands cfg s.store s'.store out) ∧
      ∀ rest buffer, s'.pc ≠ .ifaces rest buffer := by
  unfold readStdin at h
  split at h
  · obtain ⟨rfl, rfl⟩ := Prod.mk.inj (Option.some.inj h)
    exact ⟨Or.inl ⟨rfl, rfl⟩, by simp⟩
  · split at h
    · split at h
      · obtain ⟨rfl, rfl⟩ := Prod.mk.inj (Option.some.inj h)
        exact ⟨Or.inl ⟨rfl, rfl⟩, by simp⟩
      · rename_i m hm
        obtain ⟨rfl, rfl⟩ := Prod.mk.inj (Option.some.inj h)
        obtain ⟨cmd, -, hm⟩ := Fault.bind_ok hm
        exact ⟨Or.inr (commands_of_menu hm), by simp⟩
    · cases h

theorem effect_readIface {rest : List IfaceSocketPair} {buffer : EtherPkt} {now : Milliseconds}
    {u : Uninit} {r : Received} :
    Effect cfg s.store (readIface cfg s i rest buffer now u r).1.store
      (readIface cfg s i rest buffer now u r).2 := by
  cases r with
  | eof => exact .quiet
  | error => exact effect_settle fun _ _ h => handles_of_handlePkt h
  | frame pkt => exact effect_settle fun _ _ h => handles_of_handlePkt h

inductive Turn (cfg : Config) (s : State) : Event → State → List Out → Prop
  | sweep (now : Milliseconds) (hpc : s.pc = .top) :
      Turn cfg s (.sweep now)
        { s with store := { s.store with arp := s.store.arp.monitorCache now }, pc := .select } []
  | stdin {read : State} {ran : List Out} (bytes : Option (List Char)) (u : Uninit)
      (hpc : s.pc = .select) (hr : readStdin cfg s u bytes = some (read, ran)) :
      Turn cfg s (.stdin bytes u) read ran
  | frames (u : Uninit) (hpc : s.pc = .select) :
      Turn cfg s (.frames u) { s with pc := next cfg.ifaces (EtherPkt.uninit u "") } []
  | skip (i : IfaceSocketPair) (rest : List IfaceSocketPair) (buffer : EtherPkt)
      (hpc : s.pc = .ifaces (i :: rest) buffer) :
      Turn cfg s .skip { s with pc := next rest buffer } []
  | recv (i : IfaceSocketPair) (rest : List IfaceSocketPair) (buffer : EtherPkt) (r : Received)
      (now : Milliseconds) (u : Uninit) (hpc : s.pc = .ifaces (i :: rest) buffer) :
      Turn cfg s (.recv r now u) (readIface cfg s i rest buffer now u r).1
        (readIface cfg s i rest buffer now u r).2

theorem turn_of_step {e : Event} (h : step cfg s e = some (s', out)) : Turn cfg s e s' out := by
  unfold step at h
  split at h
  · rename_i hpc
    unfold sweep at h
    split at h
    · obtain ⟨rfl, rfl⟩ := Prod.mk.inj (Option.some.inj h)
      exact .sweep _ hpc
    · cases h
  · rename_i hpc
    exact .stdin _ _ hpc h
  · rename_i hpc
    obtain ⟨rfl, rfl⟩ := Prod.mk.inj (Option.some.inj h)
    exact .frames _ hpc
  · rename_i hpc
    obtain ⟨rfl, rfl⟩ := Prod.mk.inj (Option.some.inj h)
    exact .skip _ _ _ hpc
  · rename_i hpc
    obtain ⟨rfl, rfl⟩ := Prod.ext_iff.mp (Option.some.inj h)
    exact .recv _ _ _ _ _ _ hpc
  · cases h

theorem effect_of_step {e : Event} (h : step cfg s e = some (s', out)) :
    Effect cfg s.store s'.store out := by
  cases turn_of_step h with
  | sweep now => exact .sweep now
  | stdin bytes u _ hr =>
    rcases (readStdin_some hr).1 with ⟨hst, rfl⟩ | hc
    · exact hst ▸ .quiet
    · exact .console hc
  | frames | skip => exact .quiet
  | recv => exact effect_readIface

end NetworkEmulator.Station
