import NetworkEmulator.Station.Pending

namespace NetworkEmulator.Station

open Transition

variable {cfg : Config} {ms : List (Move State Event Out)} {s s' : State} {st st' : Store}
  {pq : PendingQueue} {h out : List Out}

theorem accepted_eq_written_add_pending (p : Path (machine cfg) ms s h) (dst : IPAddr)
    (data : String) :
    (h.filterMap acceptedPkt).countP (fun pp => pp.dstIpaddr = dst ∧ pp.data = data) =
      (h.filterMap ipFrame).countP (fun pkt => pkt.ipPkt.dstIp = dst ∧ pkt.ipPkt.data = data) +
        s.store.pq.countP (fun pp => pp.dstIpaddr = dst ∧ pp.data = data) :=
  (tracks p).accounted dst data

def answeredRun : List Event := typed "send B x" ++ heard responseFromB

theorem accepted_eq_written_add_pending_answered :
    (((machine hostA).trace answeredRun).filterMap acceptedPkt).countP
        (fun pp => pp.dstIpaddr = "10.0.0.2" ∧ pp.data = " x") =
      (((machine hostA).trace answeredRun).filterMap ipFrame).countP
          (fun pkt => pkt.ipPkt.dstIp = "10.0.0.2" ∧ pkt.ipPkt.data = " x") +
        ((machine hostA).final answeredRun).store.pq.countP
          (fun pp => pp.dstIpaddr = "10.0.0.2" ∧ pp.data = " x") :=
  accepted_eq_written_add_pending ((machine hostA).path answeredRun (by decide)) _ _

def isRequestFor (ip : IPAddr) (o : Out) : Bool :=
  o.frame.any fun f => f.2.type = 0 ∧ f.2.arpPkt.op = 0 ∧ f.2.arpPkt.dstIp = ip

-- the code takes every op other than 0 for a response
def isResponseFrom (cfg : Config) (ip : IPAddr) : Out → Bool
  | .handle _ recv =>
    recv.type = 0 ∧ recv.arpPkt.op ≠ 0 ∧ recv.arpPkt.srcIp = ip ∧
      isIntendedIpDestination cfg recv.arpPkt.dstIp
  | _ => false

def requests (ip : IPAddr) (h : List Out) : Nat := h.countP (isRequestFor ip)

def responses (cfg : Config) (ip : IPAddr) (h : List Out) : Nat := h.countP (isResponseFrom cfg ip)

def waitingFor (ip : IPAddr) (pq : PendingQueue) : Nat := pq.countP (·.nextHopIpaddr = ip)

def Balanced (cfg : Config) (ip : IPAddr) (pq : PendingQueue) (h : List Out) : Prop :=
  waitingFor ip pq + responses cfg ip h = requests ip h

theorem requests_append {ip : IPAddr} : requests ip (h ++ out) = requests ip h + requests ip out :=
  List.countP_append

theorem responses_append {ip : IPAddr} :
    responses cfg ip (h ++ out) = responses cfg ip h + responses cfg ip out :=
  List.countP_append

theorem requests_command {ip : IPAddr} {line : String} :
    requests ip (.command line :: out) = requests ip out :=
  List.countP_cons_of_neg (by simp [isRequestFor, Out.frame])

theorem responses_command {ip : IPAddr} {line : String} :
    responses cfg ip (.command line :: out) = responses cfg ip out :=
  List.countP_cons_of_neg (by simp [isResponseFrom])

theorem requests_handle {ip : IPAddr} {i : IfaceSocketPair} {recv : EtherPkt} :
    requests ip (.handle i recv :: out) = requests ip out :=
  List.countP_cons_of_neg (by simp [isRequestFor, Out.frame])

theorem responses_handle {i : IfaceSocketPair} {recv : EtherPkt} {ip : IPAddr} :
    responses cfg ip (.handle i recv :: out) =
      responses cfg ip out + responses cfg ip [.handle i recv] :=
  List.countP_cons.trans (by simp [responses, List.countP_singleton])

theorem waitingFor_eraseIdx (ip : IPAddr) {k : Nat} {pp : PendingPkt} (hk : pq[k]? = some pp) :
    waitingFor ip pq = waitingFor ip (pq.eraseIdx k) + if pp.nextHopIpaddr = ip then 1 else 0 := by
  have hperm := (Ledger.perm_eraseIdx hk).countP_eq (fun pp => decide (pp.nextHopIpaddr = ip))
  rw [waitingFor, ← hperm, List.countP_cons]
  simp [waitingFor]

theorem balance_sends (ip : IPAddr) {srcIp dstIp : IPAddr} {data : String}
    (hs : Sends cfg st srcIp dstIp data st' out) :
    waitingFor ip st'.pq = waitingFor ip st.pq + requests ip out ∧ responses cfg ip out = 0 := by
  cases hs with
  | cached u hop =>
    have hreq : requests ip [.send (hop.pendingPkt cfg srcIp dstIp data) true hop.iface.2.fd
        (hop.ipFrame u (st.arp.getMacFor hop.ipAddr) dstIp data)] = 0 := rfl
    rw [hreq]
    exact ⟨rfl, rfl⟩
  | queued u hop =>
    refine ⟨?_, rfl⟩
    rw [waitingFor, List.countP_append]
    simp [waitingFor, requests, isRequestFor, Out.frame, Hop.requestFrame, Hop.pendingPkt,
      ArpPkt.createReqPkt, List.countP_singleton]

theorem requests_replies {u : Uninit} {recv : EtherPkt} {ip : IPAddr}
    (ifaces : List IfaceSocketPair) :
    requests ip (ifaces.map fun o => .reply o.2.fd (respFrame u o.1 recv)) = 0 := by
  refine List.countP_eq_zero.mpr fun o ho => ?_
  obtain ⟨i, -, rfl⟩ := List.mem_map.mp ho
  simp [isRequestFor, Out.frame, respFrame, ArpPkt.createRespPkt]

theorem responses_replies {u : Uninit} {recv : EtherPkt} {ip : IPAddr}
    (ifaces : List IfaceSocketPair) :
    responses cfg ip (ifaces.map fun o => .reply o.2.fd (respFrame u o.1 recv)) = 0 := by
  refine List.countP_eq_zero.mpr fun o ho => ?_
  obtain ⟨i, -, rfl⟩ := List.mem_map.mp ho
  simp [isResponseFrom]

theorem balance_ignored {i : IfaceSocketPair} {recv : EtherPkt} {ip : IPAddr}
    (hi : Ignored cfg st recv) : responses cfg ip [.handle i recv] = 0 ∨
      waitingFor ip st.pq = 0 ∧ responses cfg ip [.handle i recv] = 1 := by
  cases hr : isResponseFrom cfg ip (.handle i recv) with
  | false =>
    left
    simp [responses, hr]
  | true =>
    right
    refine ⟨List.countP_eq_zero.mpr ?_, by simp [responses, hr]⟩
    simp only [isResponseFrom, decide_eq_true_eq] at hr
    obtain ⟨ht, -, rfl, hd⟩ := hr
    rw [Ignored, if_pos ht] at hi
    rcases hi with hd' | ⟨-, hno⟩
    · exact absurd hd (by simp [hd'])
    · intro pp hpp
      simpa using hno pp hpp

theorem balance_handles (ip : IPAddr) {i : IfaceSocketPair} {recv : EtherPkt}
    (hs : Handles cfg st i recv st' out) :
    waitingFor ip st'.pq + responses cfg ip (.handle i recv :: out) =
        waitingFor ip st.pq + requests ip out ∨
      waitingFor ip st.pq = 0 ∧ requests ip out = 0 ∧
        responses cfg ip (.handle i recv :: out) = 1 := by
  rw [responses_handle]
  cases hs with
  | ignored hi =>
    have hreq : requests ip [] = 0 := rfl
    have hresp : responses cfg ip [] = 0 := rfl
    rw [hreq, hresp, Nat.zero_add]
    rcases balance_ignored (i := i) hi with hzero | ⟨hwait, hone⟩
    · exact Or.inl (congrArg _ hzero)
    · exact Or.inr ⟨hwait, rfl, hone⟩
  | request now u ht ho =>
    left
    have hr : responses cfg ip [.handle i recv] = 0 := by simp [responses, isResponseFrom, ho]
    rw [requests_replies, responses_replies, hr, learn_pq]
  | flush now u k pp o ht ho hd hp =>
    left
    obtain ⟨hk, hkey, -⟩ := firstPending_some hp
    have hr : responses cfg ip [.handle i recv] = if pp.nextHopIpaddr = ip then 1 else 0 := by
      simp [responses, isResponseFrom, ht, ho, hd, hkey, List.countP_singleton]
    have hout : requests ip [.flush k i.2.fd (flushFrame u o.1 recv pp)] = 0 := rfl
    have hresp : responses cfg ip [.flush k i.2.fd (flushFrame u o.1 recv pp)] = 0 := rfl
    have herase := waitingFor_eraseIdx ip hk
    change waitingFor ip (st.pq.eraseIdx k) + _ = _
    omega
  | deliver ht =>
    left
    have hr : responses cfg ip [.handle i recv] = 0 := by simp [responses, isResponseFrom, ht]
    have hout : requests ip [.deliver (getIfaceForIp cfg recv.ipPkt.srcIp) recv.ipPkt] = 0 := rfl
    have hresp : responses cfg ip
      [.deliver (getIfaceForIp cfg recv.ipPkt.srcIp) recv.ipPkt] = 0 := rfl
    rw [hr, hout, hresp]
  | forward ht _ _ hs =>
    left
    have hr : responses cfg ip [.handle i recv] = 0 := by simp [responses, isResponseFrom, ht]
    obtain ⟨hwait, hresp⟩ := balance_sends ip hs
    omega

theorem balanced_effect {ip : IPAddr} (hb : Balanced cfg ip st.pq h) (he : Effect cfg st st' out)
    (hanswer : responses cfg ip (h ++ out) ≤ requests ip (h ++ out)) :
    Balanced cfg ip st'.pq (h ++ out) := by
  unfold Balanced at hb ⊢
  rw [responses_append, requests_append] at hanswer ⊢
  cases he with
  | quiet | sweep => exact hb
  | console hc =>
    cases hc with
    | other line =>
      rw [responses_command, requests_command]
      exact hb
    | send line dst data _ hs =>
      obtain ⟨hwait, hresp⟩ := balance_sends ip hs
      rw [responses_command, requests_command]
      omega
  | handle i recv hs =>
    rw [requests_handle] at hanswer ⊢
    rcases balance_handles ip hs with heq | ⟨hzero, hreq, hone⟩
    · omega
    · omega

theorem pending_add_responses_eq_requests (p : Path (machine cfg) ms s h) (ip : IPAddr)
    (hanswer : ∀ mv ∈ ms, responses cfg ip mv.logAfter ≤ requests ip mv.logAfter) :
    waitingFor ip s.store.pq + responses cfg ip h = requests ip h := by
  have hinit : Balanced cfg ip (machine cfg).init.store.pq [] := rfl
  exact p.guarded (fun s h => Balanced cfg ip s.store.pq h) hinit
    (fun hb hs hle => balanced_effect hb (effect_of_step hs) hle) hanswer

theorem pending_add_responses_eq_requests_answered :
    waitingFor "10.0.0.2" ((machine hostA).final answeredRun).store.pq +
        responses hostA "10.0.0.2" ((machine hostA).trace answeredRun) =
      requests "10.0.0.2" ((machine hostA).trace answeredRun) :=
  pending_add_responses_eq_requests ((machine hostA).path answeredRun (by decide)) _ (by decide)

theorem overtakes_through_cache (p : Path (machine cfg) ms s h) {m n : Nat} {a b : Accepted}
    {pkt : EtherPkt} (ha : (m, a) ∈ (ledger h).waiting) (hb : (n, b, pkt) ∈ (ledger h).sent)
    (hlt : m < n) (hhop : a.hop = b.hop) :
    ∃ h₁ fd h₂, h = h₁ ++ .send b.pending true fd pkt :: h₂ ∧
      (ledger h₁).accepted.length = n ∧ (m, a) ∈ (ledger h₁).waiting := by
  have ht := tracks p
  obtain ⟨es₁, es₂, hes, hlen, hwait⟩ :=
    Ledger.overtaken ht.firstOfHop (p := (m, a)) (q := (n, b)) hb ha hlt hhop
  obtain ⟨h₁, hrest, rfl, rfl, hcons⟩ := List.filterMap_eq_append_iff.mp hes
  obtain ⟨quiet, o, h₂, rfl, hquiet, ho, -⟩ := List.filterMap_eq_cons_iff.mp hcons
  have hsame : (h₁ ++ quiet).filterMap entryOf = h₁.filterMap entryOf := by
    rw [List.filterMap_append, List.filterMap_eq_nil_iff.mpr hquiet, List.append_nil]
  have hledger : ledger (h₁ ++ quiet) = ledger h₁ := congrArg Ledger.ofEntries hsame
  obtain ⟨fd, rfl⟩ : ∃ fd, o = .send b.pending true fd pkt := by
    cases o with
    | send pp cached fd pkt' =>
      cases cached with
      | true =>
        simp only [entryOf, Option.some.injEq, Ledger.Entry.direct.injEq] at ho
        obtain ⟨rfl, rfl⟩ := ho
        exact ⟨fd, rfl⟩
      | false => simp [entryOf] at ho
    | command | handle | reply | flush | deliver => simp [entryOf] at ho
  exact ⟨h₁ ++ quiet, fd, h₂, by simp, by rw [hledger]; exact hlen, by rw [hledger]; exact hwait⟩

def overtakingRun : List Event := typed "send B x" ++ heard requestFromB ++ typed "send B y"

def packetToB (data : String) : PendingPkt := ⟨"10.0.0.2", "10.0.0.2", "10.0.0.1", "A", data⟩

def frameToB (data : String) : EtherPkt :=
  { EtherPkt.uninit ⟨0, 0⟩ "aa" with
    macDst := "bb", type := 1, ipPkt := IpPkt.createPkt "10.0.0.1" "10.0.0.2" data }

theorem overtakes_through_cache_request :
    ∃ h₁ fd h₂, (machine hostA).trace overtakingRun =
        h₁ ++ .send (packetToB " y") true fd (frameToB " y") :: h₂ ∧
      (ledger h₁).accepted.length = 1 ∧ (0, ⟨packetToB " x", false⟩) ∈ (ledger h₁).waiting :=
  overtakes_through_cache (b := ⟨packetToB " y", true⟩)
    ((machine hostA).path overtakingRun (by decide)) (by decide) (by decide) (by decide) (by decide)

theorem fresh_mapping_overtakes :
    ¬ ∀ (cfg : Config) (ms : List (Move State Event Out)) (s : State) (h : List Out),
      Path (machine cfg) ms s h → ∀ (m n : Nat) (a b : Accepted) (pkt : EtherPkt), m < n →
      (ledger h).accepted[m]? = some a → (ledger h).accepted[n]? = some b → a.hop = b.hop →
      a.pending.ifaceName = b.pending.ifaceName → (n, b, pkt) ∈ (ledger h).sent →
      ∃ pkt', (m, a, pkt') ∈ (ledger h).sent := by
  intro hall
  have hp := (machine hostA).path overtakingRun (by decide)
  obtain ⟨pkt', hsent⟩ := hall _ _ _ _ hp 0 1 ⟨packetToB " x", false⟩ ⟨packetToB " y", true⟩
    (frameToB " y") (by decide) (by decide) (by decide) (by decide) (by decide) (by decide)
  have hall : (ledger ((machine hostA).trace overtakingRun)).sent =
      [(1, ⟨packetToB " y", true⟩, frameToB " y")] := by decide
  rw [hall] at hsent
  simp at hsent

end NetworkEmulator.Station
