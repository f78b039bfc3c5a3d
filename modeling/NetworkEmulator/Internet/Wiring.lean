import NetworkEmulator.Bridge.Consistent
import NetworkEmulator.Internet.Net

namespace NetworkEmulator.Bridge

open Transition

variable {s s' : State} {w : Wake} {out : List Out}

theorem greets_of_step (hs : step s w = some (s', out)) (hl : s.listenFd ∈ w.readSet) :
    (out = [.accept w.cliFd] ∧ fds s'.clients = fds s.clients ++ [w.cliFd]) ∨
      (∀ fd, out ≠ [.accept fd]) ∧ (s'.stop = false → s'.clients = s.clients) := by
  unfold step at hs
  split at hs
  · cases hs
  · obtain ⟨rfl, rfl⟩ := Prod.ext_iff.mp (Option.some.inj hs)
    have hl' : (afterSweep s w).listenFd ∈ w.readSet := hl
    unfold dispatch
    rw [if_pos hl']
    simp only [acceptClient]
    split_ifs
    · exact Or.inr ⟨by simp, by simp⟩
    · exact Or.inr ⟨by simp, by simp⟩
    · exact Or.inr ⟨by simp, by simp⟩
    · exact Or.inl ⟨rfl, fds_snoc s.clients w.cliFd⟩

theorem handleFrame_keeps (s : State) (w : Wake) (i : Nat) (fd : Port) (pkt : EtherPkt) :
    (handleFrame s w i fd pkt).1.clients = s.clients ∧
      ∃ ws, (handleFrame s w i fd pkt).2 = .read fd pkt :: ws := by
  unfold handleFrame
  split
  · simp only
    split_ifs
    · exact ⟨rfl, _, rfl⟩
    · exact ⟨rfl, _, rfl⟩
  · simp only
    split_ifs
    · exact ⟨rfl, _, rfl⟩
    · exact ⟨rfl, _, rfl⟩

theorem console_keeps (s : State) (line : Option String) :
    (console s line).clients = s.clients := by
  cases line with
  | none => rfl
  | some line =>
    simp only [console]
    split_ifs
    · rfl
    · rfl

theorem serves_of_step (hd : (fds s.clients).Nodup) (hs : step s w = some (s', out))
    (hl : s.listenFd ∉ w.readSet) :
    (∃ fd, out = [.disconnect fd] ∧
        ∀ fd', fd' ∈ fds s'.clients ↔ fd' ≠ fd ∧ fd' ∈ fds s.clients) ∨
      (∀ fd, out ≠ [.disconnect fd]) ∧ s'.clients = s.clients := by
  unfold step at hs
  split at hs
  · cases hs
  · obtain ⟨rfl, rfl⟩ := Prod.ext_iff.mp (Option.some.inj hs)
    have hl' : (afterSweep s w).listenFd ∉ w.readSet := hl
    unfold dispatch
    rw [if_neg hl']
    split_ifs
    · exact Or.inr ⟨by simp, console_keeps _ _⟩
    · unfold serveClient
      split
      · exact Or.inr ⟨by simp, rfl⟩
      · rename_i i c hi
        split
        · obtain ⟨hclients, ws, hout⟩ := handleFrame_keeps (afterSweep s w) w i c.fd ‹_›
          refine Or.inr ⟨fun fd he => ?_, hclients⟩
          rw [hout] at he
          cases he
        · exact Or.inl ⟨c.fd, rfl, fun fd' => mem_fds_eraseIdx hd (firstReady_some hi).1⟩

theorem client_of_write (hs : step s w = some (s', out)) {fd : Port} {pkt : EtherPkt}
    (hw : .write fd pkt ∈ out) : fd ∈ fds s.clients := by
  cases iteration_of_step hs with
  | overrun | greetFailed | reject | accept | idle | disconnect => simp at hw
  | flood i c pkt' =>
    obtain ⟨hfd, -⟩ : fd ∈ others s i ∧ pkt' = pkt := by simpa using hw
    exact fds_eraseIdx_subset s.clients i hfd
  | unicast i c pkt' nhopFd hi hf hm =>
    obtain ⟨rfl, -⟩ : fd = nhopFd ∧ pkt = pkt' := by simpa using hw
    obtain ⟨-, d, hd, rfl⟩ := hasArpEntry_some hm
    exact List.mem_map_of_mem hd
  | writeFailed i c pkt' ws hi hf hout hbroken hsub =>
    have hwritten : fd ∈ written ws := List.mem_filterMap.mpr ⟨_, by simpa using hw, rfl⟩
    exact hsub.subset hwritten

end NetworkEmulator.Bridge

namespace NetworkEmulator.Internet

open Transition

variable {β ν : Type} {P : Plan β ν} {s s' : State β ν} {h out : List (Out ν)} {n : ν} {b : β}
  {fd : Port} {c : ConnId} {bs : Bridge.State} {w : Bridge.Wake} {bout : List Bridge.Out}

-- a connection runs between one interface and one port of the bridge that the interface names;
-- the ports of a running bridge are its clients
structure Plugged (P : Plan β ν) (s : State β ν) : Prop where
  run : ∀ b, ∃ ms h, Path (Bridge.machine (P.numPorts b) (P.listenFd b)) ms (s.bridge b) h
  farOld : ∀ b fd c, s.far b fd = some c → c < s.next
  nearOld : ∀ n fd c, s.near n fd = some c → c < s.next
  upOld : ∀ x ∈ s.up, x.1 < s.next
  downOld : ∀ x ∈ s.down, x.1 < s.next
  farOnce : ∀ b b' fd fd' c, s.far b fd = some c → s.far b' fd' = some c → b = b' ∧ fd = fd'
  nearOnce : ∀ n n' fd fd' c, s.near n fd = some c → s.near n' fd' = some c → n = n' ∧ fd = fd'
  iface : ∀ n fd c, s.near n fd = some c → ∃ i ∈ (P.config n).ifaces, i.2.fd = fd
  lan : ∀ n, ∀ i ∈ (P.config n).ifaces, ∀ c b fd, s.near n i.2.fd = some c →
    s.far b fd = some c → P.lan i.1.lanName = b
  clients : ∀ b, (s.bridge b).stop = false →
    ∀ fd, (s.far b fd).isSome ↔ fd ∈ Bridge.fds (s.bridge b).clients

theorem Plan.iface_unique (P : Plan β ν) {i j : IfaceSocketPair} (hi : i ∈ (P.config n).ifaces)
    (hj : j ∈ (P.config n).ifaces) (he : i.2.fd = j.2.fd) : i = j :=
  List.inj_on_of_nodup_map (P.sockets n) hi hj he

theorem mem_sent_iface (hp : Plugged P s) {sout : List Station.Out} {x : ConnId × EtherPkt}
    (hx : x ∈ sent s n sout) : ∃ o ∈ sout, ∃ i ∈ (P.config n).ifaces,
      o.frame = some (i.2.fd, x.2) ∧ s.near n i.2.fd = some x.1 := by
  obtain ⟨o, ho, heq⟩ := List.mem_filterMap.mp hx
  obtain ⟨f, hf, heq⟩ := Option.bind_eq_some_iff.mp heq
  obtain ⟨c, hc, rfl⟩ := Option.map_eq_some_iff.mp heq
  obtain ⟨i, hi, hfd⟩ := hp.iface n f.1 c hc
  exact ⟨o, ho, i, hi, hfd ▸ hf, hfd ▸ hc⟩

section Ends
variable {κ : Type} [DecidableEq κ] {ends : κ → Port → Option ConnId} {k k' : κ} {fd' : Port}

theorem end_added {next : ConnId}
    (he : Function.update ends k (Function.update (ends k) fd (some next)) k' fd' = some c) :
    (k' = k ∧ fd' = fd ∧ c = next) ∨ ends k' fd' = some c := by
  by_cases hk : k' = k
  · subst hk
    rw [Function.update_self] at he
    by_cases hfd : fd' = fd
    · rw [hfd, Function.update_self] at he
      exact Or.inl ⟨rfl, hfd, (Option.some.inj he).symm⟩
    · rw [Function.update_of_ne hfd] at he
      exact Or.inr he
  · rw [Function.update_of_ne hk] at he
    exact Or.inr he

theorem once_added {next : ConnId} (hold : ∀ k fd c, ends k fd = some c → c < next)
    (honce : ∀ k k' fd fd' c, ends k fd = some c → ends k' fd' = some c → k = k' ∧ fd = fd')
    (fd : Port) : ∀ k₁ k₂ fd₁ fd₂ c,
      Function.update ends k (Function.update (ends k) fd (some next)) k₁ fd₁ = some c →
      Function.update ends k (Function.update (ends k) fd (some next)) k₂ fd₂ = some c →
      k₁ = k₂ ∧ fd₁ = fd₂ := by
  intro k₁ k₂ fd₁ fd₂ c h₁ h₂
  rcases end_added h₁ with ⟨hk₁, hfd₁, hc⟩ | h₁
  · rcases end_added h₂ with ⟨hk₂, hfd₂, -⟩ | h₂
    · exact ⟨hk₁.trans hk₂.symm, hfd₁.trans hfd₂.symm⟩
    · exact absurd (hold k₂ fd₂ c h₂) (hc ▸ Nat.lt_irrefl _)
  · rcases end_added h₂ with ⟨-, -, hc⟩ | h₂
    · exact absurd (hold k₁ fd₁ c h₁) (hc ▸ Nat.lt_irrefl _)
    · exact honce k₁ k₂ fd₁ fd₂ c h₁ h₂

theorem old_added {next : ConnId} (hold : ∀ k fd c, ends k fd = some c → c < next)
    (he : Function.update ends k (Function.update (ends k) fd (some next)) k' fd' = some c) :
    c < next + 1 := by
  rcases end_added he with ⟨-, -, rfl⟩ | he
  · exact Nat.lt_succ_self _
  · exact Nat.lt_succ_of_lt (hold k' fd' c he)

theorem end_of_cut {cut : Port → Option ConnId} (hcut : ∀ fd c, cut fd = some c → ends k fd = some c)
    (he : Function.update ends k cut k' fd' = some c) : ends k' fd' = some c := by
  by_cases hk : k' = k
  · subst hk
    rw [Function.update_self] at he
    exact hcut fd' c he
  · rwa [Function.update_of_ne hk] at he

end Ends

theorem far_of_ports (he : ports s b bout fd = some c) : s.far b fd = some c := by
  unfold ports at he
  split at he
  · rename_i fd'
    by_cases hfd : fd = fd'
    · rw [hfd, Function.update_self] at he
      cases he
    · rwa [Function.update_of_ne hfd] at he
  · exact he

variable [DecidableEq β]

theorem run_bridge (hp : Plugged P s) (hb : Bridge.step (s.bridge b) w = some (bs, bout)) (b' : β) :
    ∃ ms h, Path (Bridge.machine (P.numPorts b') (P.listenFd b')) ms
      (Function.update s.bridge b bs b') h := by
  by_cases he : b' = b
  · subst he
    rw [Function.update_self]
    obtain ⟨ms, h, hpath⟩ := hp.run b'
    exact ⟨_, _, hpath.snoc hb⟩
  · rw [Function.update_of_ne he]
    exact hp.run b'

theorem clients_bridge {far : Port → Option ConnId} (hp : Plugged P s)
    (hfar : bs.stop = false → ∀ fd, (far fd).isSome ↔ fd ∈ Bridge.fds bs.clients) (b' : β)
    (hrun : (Function.update s.bridge b bs b').stop = false) (fd : Port) :
    (Function.update s.far b far b' fd).isSome ↔
      fd ∈ Bridge.fds (Function.update s.bridge b bs b').clients := by
  by_cases he : b' = b
  · subst he
    rw [Function.update_self] at hrun
    rw [Function.update_self, Function.update_self]
    exact hfar hrun fd
  · rw [Function.update_of_ne he] at hrun
    rw [Function.update_of_ne he, Function.update_of_ne he]
    exact hp.clients b' hrun fd

variable [DecidableEq ν]

theorem plugged_join (hp : Plugged P s) {i : IfaceSocketPair} {cliFd : Port}
    (hi : i ∈ (P.config n).ifaces) (hl : (s.bridge (P.lan i.1.lanName)).listenFd ∈ w.readSet)
    (hb : Bridge.step (s.bridge (P.lan i.1.lanName)) w = some (bs, [.accept cliFd])) :
    Plugged P (joined s n i.2.fd (P.lan i.1.lanName) bs cliFd) := by
  constructor
  · exact run_bridge hp hb
  · exact fun b fd c he => old_added hp.farOld he
  · exact fun m fd c he => old_added hp.nearOld he
  · exact fun x hx => Nat.lt_succ_of_lt (hp.upOld x hx)
  · exact fun x hx => Nat.lt_succ_of_lt (hp.downOld x hx)
  · exact once_added hp.farOld hp.farOnce cliFd
  · exact once_added hp.nearOld hp.nearOnce i.2.fd
  · intro m fd c he
    rcases end_added he with ⟨rfl, rfl, -⟩ | he
    · exact ⟨i, hi, rfl⟩
    · exact hp.iface m fd c he
  · intro m j hj c b fd hnear hfar
    rcases end_added hnear with ⟨rfl, hfd, rfl⟩ | hnear
    · obtain rfl := P.iface_unique hj hi hfd
      rcases end_added hfar with ⟨rfl, -, -⟩ | hfar
      · rfl
      · exact absurd (hp.farOld b fd _ hfar) (Nat.lt_irrefl _)
    · rcases end_added hfar with ⟨-, -, rfl⟩ | hfar
      · exact absurd (hp.nearOld m _ _ hnear) (Nat.lt_irrefl _)
      · exact hp.lan m j hj c b fd hnear hfar
  · refine clients_bridge hp fun hrun fd => ?_
    rcases Bridge.greets_of_step hb hl with ⟨hout, hfds⟩ | ⟨hout, -⟩
    · obtain rfl : cliFd = w.cliFd := by simpa using hout
      rw [hfds, List.mem_append, List.mem_singleton,
        ← hp.clients _ (Bridge.running_of_step hb) fd]
      by_cases hfd : fd = w.cliFd
      · simp [hfd]
      · simp [hfd]
    · exact absurd rfl (hout cliFd)

omit [DecidableEq ν] in
theorem plugged_refuse (hp : Plugged P s) (hl : (s.bridge b).listenFd ∈ w.readSet)
    (hb : Bridge.step (s.bridge b) w = some (bs, bout)) (hr : ∀ cliFd, bout ≠ [.accept cliFd]) :
    Plugged P { s with bridge := Function.update s.bridge b bs } := by
  refine { hp with run := run_bridge hp hb, clients := ?_ }
  have hfar : bs.stop = false → ∀ fd, (s.far b fd).isSome ↔ fd ∈ Bridge.fds bs.clients := by
    intro hrun fd
    rcases Bridge.greets_of_step hb hl with ⟨hout, -⟩ | ⟨-, hclients⟩
    · exact absurd hout (hr w.cliFd)
    · rw [hclients hrun]
      exact hp.clients b (Bridge.running_of_step hb) fd
  have hclients := clients_bridge (b := b) hp hfar
  rwa [Function.update_eq_self] at hclients

omit [DecidableEq ν] in
theorem plugged_serve (hp : Plugged P s) (hl : (s.bridge b).listenFd ∉ w.readSet)
    (hb : Bridge.step (s.bridge b) w = some (bs, bout)) {up : Link ConnId EtherPkt}
    (hd : drain s b bout = some up) :
    Plugged P { s with
      bridge := Function.update s.bridge b bs
      far := Function.update s.far b (ports s b bout)
      up := up
      down := s.down ++ relayed s b bout } := by
  have hcut : ∀ fd c, ports s b bout fd = some c → s.far b fd = some c :=
    fun fd c he => far_of_ports he
  constructor
  · exact run_bridge hp hb
  · exact fun b' fd c he => hp.farOld b' fd c (end_of_cut hcut he)
  · exact hp.nearOld
  · exact fun x hx => hp.upOld x (drain_subset hd hx)
  · intro x hx
    rcases List.mem_append.mp hx with hx | hx
    · exact hp.downOld x hx
    · obtain ⟨fd, -, hfar⟩ := mem_relayed hx
      exact hp.farOld b fd x.1 hfar
  · exact fun b₁ b₂ fd₁ fd₂ c h₁ h₂ =>
      hp.farOnce b₁ b₂ fd₁ fd₂ c (end_of_cut hcut h₁) (end_of_cut hcut h₂)
  · exact hp.nearOnce
  · exact hp.iface
  · exact fun m i hi c b' fd hnear hfar => hp.lan m i hi c b' fd hnear (end_of_cut hcut hfar)
  · refine clients_bridge hp fun hrun fd => ?_
    have hbefore := hp.clients b (Bridge.running_of_step hb)
    obtain ⟨ms, h, hpath⟩ := hp.run b
    rcases Bridge.serves_of_step (Bridge.wired hpath).distinct hb hl with
      ⟨fd', rfl, hfds⟩ | ⟨hout, hclients⟩
    · rw [hfds, ← hbefore fd]
      by_cases hfd : fd = fd'
      · simp [ports, hfd]
      · simp [ports, hfd]
    · rw [hclients, ← hbefore fd]
      unfold ports
      split
      · exact absurd rfl (hout _)
      · exact Iff.rfl

variable {e : Event β ν} {ms : List (Move (State β ν) (Event β ν) (Out ν))}

theorem plugged_happens (hp : Plugged P s) (hh : Happens P s e s' out) : Plugged P s' := by
  cases hh with
  | join n i w bs cliFd hi hn hl hb => exact plugged_join hp hi hl hb
  | refuse n i w bs bout hl hb hr => exact plugged_refuse hp hl hb hr
  | boot n ifaces hi => exact { hp with }
  | bridge b w bs bout up hl hb hd => exact plugged_serve hp hl hb hd
  | node n nd e st sout down hn hf hs =>
    refine { hp with upOld := fun x hx => ?_, downOld := fun x hx => hp.downOld x (fetch_subset hf hx) }
    rcases List.mem_append.mp hx with hx | hx
    · exact hp.upOld x hx
    · obtain ⟨o, -, i, -, -, hnear⟩ := mem_sent_iface hp hx
      exact hp.nearOld n i.2.fd x.1 hnear
  | halt n =>
    have hcut : ∀ fd c, (none : Option ConnId) = some c → s.near n fd = some c := by
      rintro fd c ⟨⟩
    exact { hp with
      nearOld := fun m fd c he => hp.nearOld m fd c (end_of_cut hcut he)
      nearOnce := fun m₁ m₂ fd₁ fd₂ c h₁ h₂ =>
        hp.nearOnce m₁ m₂ fd₁ fd₂ c (end_of_cut hcut h₁) (end_of_cut hcut h₂)
      iface := fun m fd c he => hp.iface m fd c (end_of_cut hcut he)
      lan := fun m i hi c b fd hnear hfar =>
        hp.lan m i hi c b fd (end_of_cut hcut hnear) hfar }

theorem plugged_init : Plugged P (machine P).init := by
  refine ⟨fun b => ⟨_, _, .nil⟩, ?_, ?_, ?_, ?_, ?_, ?_, ?_, ?_, ?_⟩ <;>
    simp [machine, Bridge.machine, Bridge.fds]

theorem plugged (p : Path (machine P) ms s h) : Plugged P s :=
  p.invariant (fun s _ => Plugged P s) plugged_init
    (fun hp hs => plugged_happens hp (happens_of_step hs))

theorem relays_of_happens (hp : Plugged P s) (hh : Happens P s (.bridge b w) s' out) :
    ∃ bs bout, Bridge.step (s.bridge b) w = some (bs, bout) ∧ s'.bridge b = bs ∧
      ∀ fd pkt, .write fd pkt ∈ bout → ∃ c, s.far b fd = some c ∧
        ∀ n fd', s.near n fd' = some c →
          ∃ i ∈ (P.config n).ifaces, i.2.fd = fd' ∧ P.lan i.1.lanName = b := by
  cases hh with
  | bridge _ _ bs bout up hl hb hd =>
    refine ⟨bs, bout, hb, Function.update_self .., fun fd pkt hw => ?_⟩
    have hfar := (hp.clients b (Bridge.running_of_step hb) fd).mpr (Bridge.client_of_write hb hw)
    obtain ⟨c, hc⟩ := Option.isSome_iff_exists.mp hfar
    refine ⟨c, hc, fun n fd' hnear => ?_⟩
    obtain ⟨i, hi, rfl⟩ := hp.iface n fd' c hnear
    exact ⟨i, hi, rfl, hp.lan n i hi c b fd hnear hc⟩

theorem relays_stay_on_lan (p : Path (machine P) ms s h) :
    ∀ mv ∈ ms, ∀ b w, mv.event = .bridge b w →
      ∃ bs bout, Bridge.step (mv.before.bridge b) w = some (bs, bout) ∧ mv.after.bridge b = bs ∧
        ∀ fd pkt, .write fd pkt ∈ bout → ∃ c, mv.before.far b fd = some c ∧
          ∀ n fd', mv.before.near n fd' = some c →
            ∃ i ∈ (P.config n).ifaces, i.2.fd = fd' ∧ P.lan i.1.lanName = b := by
  intro mv hmv b w he
  obtain ⟨_, -, hp, hs⟩ := p.before hmv
  rw [he] at hs
  exact relays_of_happens (plugged hp) (happens_of_step hs)

def firstRelay : Bridge.Wake := .carry 4 (asks ifaceA "10.0.1.1")

theorem relays_stay_on_lan_hop :
    ∃ mv ∈ (machine twoLans).moves hopRun, mv.event = .bridge false firstRelay ∧
      ∃ bs bout, Bridge.step (mv.before.bridge false) firstRelay = some (bs, bout) ∧
        mv.after.bridge false = bs ∧
        ∀ fd pkt, .write fd pkt ∈ bout → ∃ c, mv.before.far false fd = some c ∧
          ∀ n fd', mv.before.near n fd' = some c →
            ∃ i ∈ (twoLans.config n).ifaces, i.2.fd = fd' ∧ twoLans.lan i.1.lanName = false := by
  have hlt : 9 < ((machine twoLans).moves hopRun).length := by decide
  have hmem := List.get_mem ((machine twoLans).moves hopRun) ⟨9, hlt⟩
  exact ⟨_, hmem, rfl,
    relays_stay_on_lan ((machine twoLans).path hopRun (by decide)) _ hmem false firstRelay rfl⟩

end NetworkEmulator.Internet
