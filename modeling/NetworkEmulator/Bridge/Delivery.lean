import NetworkEmulator.Bridge.Learning

namespace NetworkEmulator.Bridge

open Transition

variable {numPorts : Int} {listenFd : Port} {ms : List (Move State Wake Out)} {s s' : State}
  {h : List Out} {w : Wake} {out : List Out} {owner : MacAddr → Port}

structure Reaches (owner : MacAddr → Port) (clients : List ClientData) (fd : Port) (pkt : EtherPkt)
    (out : List Out) : Prop where
  once : ∀ fd', out.count (.write fd' pkt) ≤ 1
  notBack : Out.write fd pkt ∉ out
  toOwner : ∀ c ∈ clients, c.fd = owner pkt.macDst → c.fd ≠ fd → Out.write c.fd pkt ∈ out

-- a failing write ends the process in the middle of the frame
def Delivers (owner : MacAddr → Port) (mv : Move State Wake Out) : Prop :=
  ∀ fd pkt, Out.read fd pkt ∈ mv.out → (∀ fd', Out.broken fd' ∉ mv.out) → pkt.macDst ≠ "" →
    Reaches owner mv.before.clients fd pkt mv.out

def FirstHolder (btable : BridgeTable) (clients : List ClientData) (mac : MacAddr) (fd : Port) :
    Prop :=
  ∃ cs₁ c cs₂, clients = cs₁ ++ c :: cs₂ ∧ c.fd = fd ∧ Records btable c.fd mac ∧
    ∀ d ∈ cs₁, ¬ Records btable d.fd mac

def WellFiled (owner : MacAddr → Port) (mv : Move State Wake Out) : Prop :=
  ∀ fd pkt, Out.read fd pkt ∈ mv.out → (∀ fd', Out.broken fd' ∉ mv.out) → pkt.macDst ≠ "" →
    ∀ held, FirstHolder (swept mv.before mv.event) mv.before.clients pkt.macDst held →
      held ≠ fd ∧ ∀ c ∈ mv.before.clients, c.fd = owner pkt.macDst → c.fd ≠ fd → held = c.fd

theorem hasArpEntry_firstHolder {btable : BridgeTable} {clients : List ClientData}
    {mac : MacAddr} {fd : Port} :
    hasArpEntry btable clients mac = some fd ↔ FirstHolder btable clients mac fd := by
  rw [hasArpEntry_eq, Option.map_eq_some_iff]
  constructor
  · rintro ⟨c, hc, rfl⟩
    obtain ⟨hr, cs₁, cs₂, hcs, hno⟩ := List.find?_eq_some_iff_append.mp hc
    exact ⟨cs₁, c, cs₂, hcs, rfl, by simpa using hr, by simpa using hno⟩
  · rintro ⟨cs₁, c, cs₂, hcs, rfl, hr, hno⟩
    refine ⟨c, List.find?_eq_some_iff_append.mpr ⟨by simpa using hr, cs₁, cs₂, hcs, ?_⟩, rfl⟩
    simpa using hno

theorem reaches_flood (hw : Wired s) {i : Nat} {c : ClientData} (hi : s.clients[i]? = some c)
    (pkt : EtherPkt) :
    Reaches owner s.clients c.fd pkt (.read c.fd pkt :: (others s i).map (.write · pkt)) where
  once := by
    intro fd'
    have hnd : ((others s i).map (Out.write · pkt)).Nodup :=
      (hw.nodup_others i).map fun _ _ he => (Out.write.inj he).1
    rw [List.count_cons_of_ne (by simp)]
    exact List.nodup_iff_count_le_one.mp hnd _
  notBack := by simpa using hw.notMem_others hi
  toOwner := by
    intro d hd _ hne
    simpa using mem_others hi hd hne

theorem reaches_unicast {clients : List ClientData} {fd nhopFd : Port} {pkt : EtherPkt} :
    Reaches owner clients fd pkt [.read fd pkt, .write nhopFd pkt] ↔
      nhopFd ≠ fd ∧ ∀ c ∈ clients, c.fd = owner pkt.macDst → c.fd ≠ fd → nhopFd = c.fd := by
  constructor
  · intro hr
    constructor
    · rintro rfl
      exact hr.notBack (by simp)
    · intro c hc howner hne
      have hto := hr.toOwner c hc howner hne
      simp at hto
      exact hto.symm
  · rintro ⟨hne, howner⟩
    constructor
    · intro fd'
      rw [List.count_cons_of_ne (by simp)]
      exact List.count_le_length
    · simpa using hne.symm
    · intro c hc ho hcfd
      simp [howner c hc ho hcfd]

theorem delivers_iff_wellFiled (hw : Wired s) (hs : step s w = some (s', out)) :
    Delivers owner ⟨s, h, w, s', out⟩ ↔ WellFiled owner ⟨s, h, w, s', out⟩ := by
  simp only [Delivers, WellFiled, ← hasArpEntry_firstHolder]
  constructor
  · intro hd fd pkt hread hok hne held hheld
    have hreach := hd fd pkt hread hok hne
    cases relays_of_read hs hread hok with
    | flood i c hi hm => exact absurd (hm.symm.trans hheld) (by simp)
    | unicast i c nhopFd hi hm =>
      obtain rfl := Option.some.inj (hm.symm.trans hheld)
      exact reaches_unicast.mp hreach
  · intro hfiled fd pkt hread hok hne
    have hheld := hfiled fd pkt hread hok hne
    cases relays_of_read hs hread hok with
    | flood i c hi hm => exact reaches_flood hw hi pkt
    | unicast i c nhopFd hi hm => exact reaches_unicast.mpr (hheld nhopFd hm)

def OwnedBy (owner : MacAddr → Port) (h : List Out) : Prop :=
  ∀ fd pkt, Out.read fd pkt ∈ h → pkt.macSrc ≠ "" → fd = owner pkt.macSrc

def Introduced (owner : MacAddr → Port) (mv : Move State Wake Out) : Prop :=
  ∀ fd pkt, Out.read fd pkt ∈ mv.out → (∀ fd', Out.broken fd' ∉ mv.out) → pkt.macDst ≠ "" →
    (hasArpEntry (swept mv.before mv.event) mv.before.clients pkt.macDst = none ↔
      fd = owner pkt.macDst)

def FiledByOwner (owner : MacAddr → Port) (s : State) : Prop :=
  ∀ fd mac, mac ≠ "" → Records s.btable fd mac → fd = owner mac

theorem filedByOwner_step (hfo : FiledByOwner owner s) (hs : step s w = some (s', out))
    (howned : OwnedBy owner (h ++ out)) (hmv : Introduced owner ⟨s, h, w, s', out⟩) :
    FiledByOwner owner s' := by
  intro fd mac hne hr
  rcases records_step hs hr with hr | ⟨pkt, hread, hok, rfl | ⟨rfl, hd, hm⟩⟩
  · exact hfo fd mac hne (records_monitor hr)
  · exact howned fd pkt (List.mem_append_right _ hread) hne
  · exact (hmv fd pkt hread hok hd).mp hm

theorem filedByOwner (p : Path (machine numPorts listenFd) ms s h) (howned : OwnedBy owner h)
    (hmv : ∀ mv ∈ ms, Introduced owner mv) : FiledByOwner owner s := by
  have himp : OwnedBy owner h → FiledByOwner owner s :=
    p.guarded (fun s h => OwnedBy owner h → FiledByOwner owner s)
      (fun _ fd mac _ hr => by simp [machine] at hr)
      (fun hi hs hmv howned => filedByOwner_step
        (hi fun fd pkt hread => howned fd pkt (List.mem_append_left _ hread)) hs howned hmv) hmv
  exact himp howned

theorem frames_delivered_iff (p : Path (machine numPorts listenFd) ms s h)
    (owner : MacAddr → Port) :
    ((∀ mv ∈ ms, Delivers owner mv) ↔ ∀ mv ∈ ms, WellFiled owner mv) ∧
      (OwnedBy owner h → (∀ mv ∈ ms, Introduced owner mv) → ∀ mv ∈ ms, WellFiled owner mv) := by
  have hone : ∀ mv ∈ ms, (Delivers owner mv ↔ WellFiled owner mv) := by
    intro mv hmv
    obtain ⟨_, -, hp, hs⟩ := p.before hmv
    exact delivers_iff_wellFiled (wired hp) hs
  refine ⟨forall₂_congr hone, ?_⟩
  intro howned hi mv hmv fd pkt hread hok hne held hheld
  obtain ⟨ms', hsub, hp, hs⟩ := p.before hmv
  obtain ⟨h₂, rfl⟩ := p.log_prefix hmv
  have hfo := filedByOwner hp
    (fun fd pkt hread => howned fd pkt (by simp [Move.logAfter, hread]))
    (fun m hm => hi m (hsub hm))
  have hlook := hasArpEntry_firstHolder.mpr hheld
  have hheldOwner : held = owner pkt.macDst :=
    hfo held pkt.macDst hne (records_monitor (hasArpEntry_some hlook).1)
  constructor
  · rintro rfl
    have hnone := (hi mv hmv held pkt hread hok hne).mpr hheldOwner
    exact absurd (hnone.symm.trans hlook) (by simp)
  · intro c hc howner _
    exact hheldOwner.trans howner.symm

-- 4 asks for "B" before 5 has spoken, 5 answers, and the second frame comes back to 4
def hairpinRun : List Wake :=
  [.connect 3 4, .connect 3 5, .carry 4 (frameTo "B" "A"), .carry 5 (frameTo "A" "B"),
    .carry 4 (frameTo "B" "A")]

def hairpinOwner (mac : MacAddr) : Port := if mac = "A" then 4 else 5

theorem frames_delivered_iff_hairpin :
    ((∀ mv ∈ (machine 2 3).moves hairpinRun, Delivers hairpinOwner mv) ↔
        ∀ mv ∈ (machine 2 3).moves hairpinRun, WellFiled hairpinOwner mv) ∧
      (OwnedBy hairpinOwner ((machine 2 3).trace hairpinRun) →
        (∀ mv ∈ (machine 2 3).moves hairpinRun, Introduced hairpinOwner mv) →
        ∀ mv ∈ (machine 2 3).moves hairpinRun, WellFiled hairpinOwner mv) :=
  frames_delivered_iff ((machine 2 3).path hairpinRun (by decide)) hairpinOwner

def hairpinFrame : Move State Wake Out := ((machine 2 3).moves hairpinRun).get ⟨4, by decide⟩

theorem frame_comes_back :
    ¬ ∀ (numPorts : Int) (listenFd : Port) (ms : List (Move State Wake Out)) (s : State)
      (h : List Out) (owner : MacAddr → Port), Path (machine numPorts listenFd) ms s h →
      OwnedBy owner h → (∀ fd, Out.disconnect fd ∉ h) → (∀ fd, Out.broken fd ∉ h) →
      ∀ mv ∈ ms, Delivers owner mv := by
  intro hall
  have hp := (machine 2 3).path hairpinRun (by decide)
  have hlog : (machine 2 3).trace hairpinRun =
      [.accept 4, .accept 5, .read 4 (frameTo "B" "A"), .write 5 (frameTo "B" "A"),
        .read 5 (frameTo "A" "B"), .write 4 (frameTo "A" "B"),
        .read 4 (frameTo "B" "A"), .write 4 (frameTo "B" "A")] := by decide
  have hout : hairpinFrame.out =
      [.read 4 (frameTo "B" "A"), .write 4 (frameTo "B" "A")] := by decide
  have howned : OwnedBy hairpinOwner ((machine 2 3).trace hairpinRun) := by
    intro fd pkt hread _
    rw [hlog] at hread
    simp only [List.mem_cons, reduceCtorEq, Out.read.injEq, List.not_mem_nil, or_false,
      false_or] at hread
    rcases hread with ⟨rfl, rfl⟩ | ⟨rfl, rfl⟩ | ⟨rfl, rfl⟩ <;> decide
  have hd := hall 2 3 _ _ _ hairpinOwner hp howned (by simp [hlog]) (by simp [hlog])
    hairpinFrame (List.get_mem _ _)
  have hr := hd 4 (frameTo "B" "A") (by simp [hout]) (by simp [hout]) (by decide)
  exact hr.notBack (by simp [hout])

theorem empty_unrecorded (p : Path (machine numPorts listenFd) ms s h)
    (hsrc : ∀ fd pkt, Out.read fd pkt ∈ h → pkt.macSrc ≠ "") (fd : Port) :
    ¬ Records s.btable fd "" := by
  have himp : (∀ fd pkt, Out.read fd pkt ∈ h → pkt.macSrc ≠ "") →
      ∀ fd, ¬ Records s.btable fd "" := by
    refine p.invariant (fun s h => (∀ fd pkt, Out.read fd pkt ∈ h → pkt.macSrc ≠ "") →
      ∀ fd, ¬ Records s.btable fd "") (fun _ fd => by simp [machine]) ?_
    intro s h w s' out ih hs hsrc fd hr
    rcases records_step hs hr with hr | ⟨pkt, hread, -, hmac | ⟨hmac, hne, -⟩⟩
    · exact ih (fun fd pkt hm => hsrc fd pkt (List.mem_append_left _ hm)) fd (records_monitor hr)
    · exact hsrc fd pkt (List.mem_append_right _ hread) hmac.symm
    · exact hne hmac.symm
  exact himp hsrc fd

def Broadcast (mv : Move State Wake Out) : Prop :=
  ∀ fd pkt, Out.read fd pkt ∈ mv.out → (∀ fd', Out.broken fd' ∉ mv.out) → pkt.macDst = "" →
    Out.write fd pkt ∉ mv.out ∧
      ∀ c ∈ mv.before.clients, c.fd ≠ fd → mv.out.count (.write c.fd pkt) = 1

theorem broadcast_step (hw : Wired s) (hs : step s w = some (s', out))
    (hempty : ∀ fd, ¬ Records (swept s w) fd "") : Broadcast ⟨s, h, w, s', out⟩ := by
  intro fd pkt hread hok hdst
  cases relays_of_read hs hread hok with
  | unicast i c nhopFd hi hm =>
    rw [hdst] at hm
    exact absurd (hasArpEntry_some hm).1 (hempty nhopFd)
  | flood i c hi =>
    have hreach (owner : MacAddr → Port) : Reaches owner s.clients c.fd pkt _ :=
      reaches_flood hw hi pkt
    refine ⟨(hreach fun _ => c.fd).notBack, fun d hd hne => ?_⟩
    have hmem := (hreach fun _ => d.fd).toOwner d hd rfl hne
    exact Nat.le_antisymm ((hreach fun _ => d.fd).once d.fd) (List.count_pos_iff.mpr hmem)

theorem broadcasts_reach_everyone (p : Path (machine numPorts listenFd) ms s h)
    (hsrc : ∀ fd pkt, Out.read fd pkt ∈ h → pkt.macSrc ≠ "") :
    (∀ fd, ¬ Records s.btable fd "") ∧ ∀ mv ∈ ms, Broadcast mv := by
  refine ⟨empty_unrecorded p hsrc, fun mv hmv => ?_⟩
  obtain ⟨_, -, hp, hs⟩ := p.before hmv
  obtain ⟨h₂, rfl⟩ := p.log_prefix hmv
  have hempty := empty_unrecorded hp fun fd pkt hread =>
    hsrc fd pkt (by simp [Move.logAfter, hread])
  exact broadcast_step (wired hp) hs fun fd hr => hempty fd (records_monitor hr)

def announceRun : List Wake :=
  [.connect 3 4, .connect 3 5, .connect 3 6, .carry 4 (frameTo "B" "A"), .carry 5 (frameTo "" "B")]

theorem broadcasts_reach_everyone_announce :
    (∀ fd, ¬ Records ((machine 3 3).final announceRun).btable fd "") ∧
      ∀ mv ∈ (machine 3 3).moves announceRun, Broadcast mv := by
  have hlog : (machine 3 3).trace announceRun =
      [.accept 4, .accept 5, .accept 6, .read 4 (frameTo "B" "A"), .write 5 (frameTo "B" "A"),
        .write 6 (frameTo "B" "A"), .read 5 (frameTo "" "B"), .write 4 (frameTo "" "B"),
        .write 6 (frameTo "" "B")] := by decide
  refine broadcasts_reach_everyone ((machine 3 3).path announceRun (by decide)) ?_
  rw [hlog]
  intro fd pkt hread
  simp only [List.mem_cons, reduceCtorEq, Out.read.injEq, List.not_mem_nil, or_false,
    false_or] at hread
  rcases hread with ⟨rfl, rfl⟩ | ⟨rfl, rfl⟩ <;> decide

end NetworkEmulator.Bridge
