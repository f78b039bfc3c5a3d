import NetworkEmulator.Bridge.Wired

namespace NetworkEmulator.Bridge

open Transition

variable {numPorts : Int} {listenFd : Port} {ms : List (Move State Wake Out)} {s s' : State}
  {h : List Out} {w : Wake} {out : List Out}

theorem records_step (hs : step s w = some (s', out)) {fd : Port} {mac : MacAddr}
    (hr : Records s'.btable fd mac) :
    Records (swept s w) fd mac ∨
      ∃ pkt, Out.read fd pkt ∈ out ∧ (∀ fd', Out.broken fd' ∉ out) ∧
        (mac = pkt.macSrc ∨ (mac = pkt.macDst ∧ pkt.macDst ≠ "" ∧
          hasArpEntry (swept s w) s.clients pkt.macDst = none)) := by
  cases iteration_of_step hs with
  | overrun | greetFailed | reject | idle | disconnect | writeFailed => exact Or.inl hr
  | accept => exact Or.inl (records_addPort.mp hr)
  | flood i c pkt hi hf hm =>
    rcases records_learnSource_of hr with ⟨rfl, rfl⟩ | hr
    · exact Or.inr ⟨pkt, by simp, by simp, Or.inl rfl⟩
    · rcases records_learnDestination_of hr with ⟨rfl, rfl, hne⟩ | hr
      · exact Or.inr ⟨pkt, by simp, by simp, Or.inr ⟨rfl, hne, hm⟩⟩
      · exact Or.inl hr
  | unicast i c pkt nhopFd =>
    rcases records_learnSource_of hr with ⟨rfl, rfl⟩ | hr
    · exact Or.inr ⟨pkt, by simp, by simp, Or.inl rfl⟩
    · exact Or.inl hr

theorem records_after_frame (hw : Wired s) (hs : step s w = some (s', out)) {fd : Port}
    {pkt : EtherPkt} (hread : Out.read fd pkt ∈ out) (hok : ∀ fd', Out.broken fd' ∉ out)
    (port : Port) (mac : MacAddr) :
    Records s'.btable port mac ↔ Records (swept s w) port mac ∨
      (port = fd ∧ (mac = pkt.macSrc ∨ (mac = pkt.macDst ∧ pkt.macDst ≠ "" ∧
        hasArpEntry (swept s w) s.clients pkt.macDst = none))) := by
  have hrun := running_of_step hs
  cases relays_of_read hs hread hok with
  | flood i c hi hm =>
    have hrow : c.fd ∈ swept s w := hw.row hrun hi
    change Records (learnSource w c.fd pkt (learnDestination w c.fd pkt (swept s w))) port mac ↔ _
    rw [records_learnSource (mem_learnDestination.mpr hrow), records_learnDestination hrow]
    constructor
    · rintro (⟨hp, hm'⟩ | ⟨hp, hm', hne⟩ | hr)
      · exact Or.inr ⟨hp, Or.inl hm'⟩
      · exact Or.inr ⟨hp, Or.inr ⟨hm', hne, hm⟩⟩
      · exact Or.inl hr
    · rintro (hr | ⟨hp, hm' | ⟨hm', hne, -⟩⟩)
      · exact Or.inr (Or.inr hr)
      · exact Or.inl ⟨hp, hm'⟩
      · exact Or.inr (Or.inl ⟨hp, hm', hne⟩)
  | unicast i c nhopFd hi hm =>
    have hrow : c.fd ∈ swept s w := hw.row hrun hi
    change Records (learnSource w c.fd pkt (swept s w)) port mac ↔ _
    rw [records_learnSource hrow]
    simp only [hm, reduceCtorEq, and_false, or_false]
    exact or_comm

def Learned (s : State) (h : List Out) : Prop :=
  ∀ fd mac, Records s.btable fd mac → ∃ pkt, Out.read fd pkt ∈ h ∧ pkt.macSrc = mac

def FloodsOwnMac (mv : Move State Wake Out) : Prop :=
  ∀ fd pkt, Out.read fd pkt ∈ mv.out → (∀ fd', Out.broken fd' ∉ mv.out) → pkt.macDst ≠ "" →
    hasArpEntry (swept mv.before mv.event) mv.before.clients pkt.macDst = none →
    ∃ pkt', Out.read fd pkt' ∈ mv.logAfter ∧ pkt'.macSrc = pkt.macDst

theorem learned_step {e : Wake} (hl : Learned s h) (hs : step s e = some (s', out))
    (hmv : FloodsOwnMac ⟨s, h, e, s', out⟩) : Learned s' (h ++ out) := by
  intro fd mac hr
  rcases records_step hs hr with hr | ⟨pkt, hread, hok, rfl | ⟨rfl, hne, hm⟩⟩
  · obtain ⟨pkt, hpkt, hmac⟩ := hl fd mac (records_monitor hr)
    exact ⟨pkt, List.mem_append_left _ hpkt, hmac⟩
  · exact ⟨pkt, List.mem_append_right _ hread, rfl⟩
  · exact hmv fd pkt hread hok hne hm

theorem table_learns_sources_iff (p : Path (machine numPorts listenFd) ms s h) :
    (∀ mv ∈ ms, Learned mv.after mv.logAfter) ↔ ∀ mv ∈ ms, FloodsOwnMac mv := by
  constructor
  · intro hl mv hmv fd pkt hread hok hne hm
    obtain ⟨_, -, hp, hs⟩ := p.before hmv
    have hr := (records_after_frame (wired hp) hs hread hok fd pkt.macDst).mpr
      (Or.inr ⟨rfl, Or.inr ⟨rfl, hne, hm⟩⟩)
    exact hl mv hmv fd pkt.macDst hr
  · intro hf mv hmv
    obtain ⟨ms', hsub, hp⟩ := p.upTo hmv
    exact hp.guarded Learned (by intro fd mac hr; simp [machine] at hr)
      (fun hl hs hmv => learned_step hl hs hmv) (fun m hm => hf m (hsub hm))

def misfiledRun : List Wake :=
  [.connect 3 4, .connect 3 5, .carry 4 (frameTo "B" "A")]

theorem table_learns_sources_iff_misfiled :
    (∀ mv ∈ (machine 2 3).moves misfiledRun, Learned mv.after mv.logAfter) ↔
      ∀ mv ∈ (machine 2 3).moves misfiledRun, FloodsOwnMac mv :=
  table_learns_sources_iff ((machine 2 3).path misfiledRun (by decide))

theorem table_learns_destination :
    ¬ ∀ (numPorts : Int) (listenFd : Port) (ms : List (Move State Wake Out)) (s : State)
      (h : List Out), Path (machine numPorts listenFd) ms s h → Learned s h := by
  intro hall
  have hp := (machine 2 3).path misfiledRun (by decide)
  obtain ⟨pkt, hread, hmac⟩ := hall _ _ _ _ _ hp 4 "B" (by decide)
  have hlog : (machine 2 3).trace misfiledRun = [.accept 4, .accept 5,
      .read 4 (frameTo "B" "A"), .write 5 (frameTo "B" "A")] := by decide
  rw [hlog] at hread
  obtain rfl : pkt = frameTo "B" "A" := by simpa using hread
  exact absurd hmac (by decide)

def CarriedSince (h : List Out) (fd : Port) (mac : MacAddr) : Prop :=
  ∃ h₁ h₂ pkt, h = h₁ ++ Out.accept fd :: h₂ ∧ Out.accept fd ∉ h₂ ∧ Out.read fd pkt ∈ h₂ ∧
    (pkt.macSrc = mac ∨ pkt.macDst = mac)

def Unleaked (s : State) (h : List Out) : Prop :=
  ∀ fd mac, Records s.btable fd mac → CarriedSince h fd mac

def AcceptsCleanPort (mv : Move State Wake Out) : Prop :=
  ∀ fd mac, Out.accept fd ∈ mv.out → ¬ Records (swept mv.before mv.event) fd mac

theorem CarriedSince.append {fd : Port} {mac : MacAddr} (hc : CarriedSince h fd mac)
    (hout : Out.accept fd ∉ out) : CarriedSince (h ++ out) fd mac := by
  obtain ⟨h₁, h₂, pkt, rfl, hlast, hread, hmac⟩ := hc
  exact ⟨h₁, h₂ ++ out, pkt, by simp, by simp [hlast, hout], List.mem_append_left _ hread, hmac⟩

theorem last_accept {fd : Port} (ha : Out.accept fd ∈ h) :
    ∃ h₁ h₂, h = h₁ ++ Out.accept fd :: h₂ ∧ Out.accept fd ∉ h₂ := by
  obtain ⟨h₁, _, h₂, heq, rfl, hlast⟩ := exists_last (P := (· = Out.accept fd)) ⟨_, ha, rfl⟩
  exact ⟨h₁, h₂, heq, fun hm => hlast _ hm rfl⟩

def Greeted (s : State) (h : List Out) : Prop :=
  s.stop = false → ∀ c ∈ s.clients, Out.accept c.fd ∈ h

theorem greeted_step (hg : Greeted s h) (hs : step s w = some (s', out)) :
    Greeted s' (h ++ out) := by
  have hold : ∀ c ∈ s.clients, Out.accept c.fd ∈ h ++ out :=
    fun c hc => List.mem_append_left _ (hg (running_of_step hs) c hc)
  cases iteration_of_step hs with
  | overrun | greetFailed | writeFailed => exact fun hstop => absurd hstop (by simp)
  | reject => exact fun _ c hc => hold c (by simpa using hc)
  | accept =>
    intro _ c hc
    rcases List.mem_append.mp hc with hc | hc
    · exact hold c hc
    · obtain rfl := List.mem_singleton.mp hc
      simp
  | idle | flood | unicast => exact fun _ => hold
  | disconnect => exact fun _ c hc => hold c (List.mem_of_mem_eraseIdx hc)

theorem accept_notMem_of_read (fd' : Port) (hs : step s w = some (s', out)) {fd : Port}
    {pkt : EtherPkt} (hread : Out.read fd pkt ∈ out) :
    Out.accept fd' ∉ out ∧ (∃ c ∈ s.clients, c.fd = fd) := by
  cases iteration_of_step hs with
  | overrun | greetFailed | reject | accept | idle | disconnect => simp at hread
  | flood i c pkt' hi =>
    obtain ⟨rfl, rfl⟩ : fd = c.fd ∧ pkt = pkt' := by simpa using hread
    exact ⟨by simp, c, List.mem_of_getElem? hi, rfl⟩
  | unicast i c pkt' nhopFd hi =>
    obtain ⟨rfl, rfl⟩ : fd = c.fd ∧ pkt = pkt' := by simpa using hread
    exact ⟨by simp, c, List.mem_of_getElem? hi, rfl⟩
  | writeFailed i c pkt' out hi hf hout =>
    have hno : ∀ o, (∀ fd, o ≠ Out.write fd pkt' ∧ o ≠ Out.broken fd) → o ∉ out := by
      intro o ho hm
      obtain ⟨fd₀, h₀ | h₀⟩ := hout o hm
      · exact (ho fd₀).1 h₀
      · exact (ho fd₀).2 h₀
    rcases List.mem_cons.mp hread with heq | hm
    · obtain ⟨rfl, rfl⟩ := Out.read.inj heq
      exact ⟨by simpa using hno _ (by simp), c, List.mem_of_getElem? hi, rfl⟩
    · exact absurd hm (hno _ (by simp))

theorem unleaked_step (hg : Greeted s h) (hu : Unleaked s h) (hs : step s w = some (s', out))
    (hmv : AcceptsCleanPort ⟨s, h, w, s', out⟩) : Unleaked s' (h ++ out) := by
  intro fd mac hr
  rcases records_step hs hr with hr | ⟨pkt, hread, -, hmac⟩
  · have hold := hu fd mac (records_monitor hr)
    exact hold.append (fun ha => hmv fd mac ha hr)
  · obtain ⟨hno, c, hc, rfl⟩ := accept_notMem_of_read fd hs hread
    obtain ⟨h₁, h₂, rfl, hlast⟩ := last_accept (hg (running_of_step hs) c hc)
    refine ⟨h₁, h₂ ++ out, pkt, by simp, by simp [hlast, hno], List.mem_append_right _ hread, ?_⟩
    exact hmac.imp Eq.symm (fun hd => hd.1.symm)

theorem unleaked_of_clean (p : Path (machine numPorts listenFd) ms s h)
    (hc : ∀ mv ∈ ms, AcceptsCleanPort mv) : Unleaked s h := by
  have hboth : Greeted s h ∧ Unleaked s h :=
    p.guarded (fun s h => Greeted s h ∧ Unleaked s h)
      ⟨fun _ c hc => by simp [machine] at hc, fun fd mac hr => by simp [machine] at hr⟩
      (fun hi hs hmv => ⟨greeted_step hi.1 hs, unleaked_step hi.1 hi.2 hs hmv⟩) hc
  exact hboth.2

theorem accept_records (hs : step s w = some (s', out)) {fd : Port} (ha : Out.accept fd ∈ out) :
    out = [Out.accept fd] ∧ ∀ mac, Records s'.btable fd mac ↔ Records (swept s w) fd mac := by
  cases iteration_of_step hs with
  | overrun | greetFailed | reject | idle | disconnect | flood | unicast => simp at ha
  | writeFailed i c pkt out hi hf hout =>
    rcases List.mem_cons.mp ha with heq | hm
    · cases heq
    · obtain ⟨fd₀, h₀ | h₀⟩ := hout _ hm <;> cases h₀
  | accept =>
    obtain rfl := Out.accept.inj (List.mem_singleton.mp ha)
    exact ⟨rfl, fun mac => records_addPort⟩

theorem table_unleaked_iff (p : Path (machine numPorts listenFd) ms s h) :
    ((∀ mv ∈ ms, Unleaked mv.after mv.logAfter) ↔ ∀ mv ∈ ms, AcceptsCleanPort mv) ∧
      ((∀ mv ∈ ms, AcceptsCleanPort mv) → ∀ mv ∈ ms, ∀ fd pkt nhopFd,
        Out.read fd pkt ∈ mv.out →
        hasArpEntry (swept mv.before mv.event) mv.before.clients pkt.macDst = some nhopFd →
        CarriedSince mv.log nhopFd pkt.macDst) := by
  refine ⟨⟨?_, ?_⟩, ?_⟩
  · intro hu mv hmv fd mac ha hr
    obtain ⟨_, -, hp, hs⟩ := p.before hmv
    obtain ⟨hout, hrec⟩ := accept_records hs ha
    -- nothing has been read between the accept and the end of its own iteration
    obtain ⟨h₁, h₂, pkt, heq, hlast, hread, -⟩ := hu mv hmv fd mac ((hrec mac).mpr hr)
    rcases List.eq_nil_or_concat h₂ with rfl | ⟨h₃, o, rfl⟩
    · simp at hread
    · rw [Move.logAfter, hout, List.concat_eq_append, ← List.cons_append, ← List.append_assoc] at heq
      obtain ⟨-, ho⟩ := List.append_inj' heq rfl
      obtain rfl := List.singleton_inj.mp ho
      simp at hlast
  · intro hc mv hmv
    obtain ⟨ms', hsub, hp⟩ := p.upTo hmv
    exact unleaked_of_clean hp (fun m hm => hc m (hsub hm))
  · intro hc mv hmv fd pkt nhopFd _ hm
    obtain ⟨ms', hsub, hp, -⟩ := p.before hmv
    have hu := unleaked_of_clean hp (fun m hm => hc m (hsub hm))
    exact hu nhopFd pkt.macDst (records_monitor (hasArpEntry_some hm).1)

-- the second station on descriptor 4 arrives before the first one's entry has aged out
def reconnectRun : List Wake :=
  [.connect 3 4, .carry 4 (frameTo "" "A"), .hangup 4, .connect 3 4]

theorem table_unleaked_iff_reconnect :
    ((∀ mv ∈ (machine 2 3).moves reconnectRun, Unleaked mv.after mv.logAfter) ↔
        ∀ mv ∈ (machine 2 3).moves reconnectRun, AcceptsCleanPort mv) ∧
      ((∀ mv ∈ (machine 2 3).moves reconnectRun, AcceptsCleanPort mv) →
        ∀ mv ∈ (machine 2 3).moves reconnectRun, ∀ fd pkt nhopFd, Out.read fd pkt ∈ mv.out →
        hasArpEntry (swept mv.before mv.event) mv.before.clients pkt.macDst = some nhopFd →
        CarriedSince mv.log nhopFd pkt.macDst) :=
  table_unleaked_iff ((machine 2 3).path reconnectRun (by decide))

theorem table_leaks_across_connections :
    ¬ ∀ (numPorts : Int) (listenFd : Port) (ms : List (Move State Wake Out)) (s : State)
      (h : List Out), Path (machine numPorts listenFd) ms s h → Unleaked s h := by
  intro hall
  have hp := (machine 2 3).path reconnectRun (by decide)
  obtain ⟨h₁, h₂, pkt, heq, hlast, hread, -⟩ := hall _ _ _ _ _ hp 4 "A" (by decide)
  have hlog : (machine 2 3).trace reconnectRun =
      [.accept 4, .read 4 (frameTo "" "A"), .disconnect 4] ++ [.accept 4] := by decide
  rw [hlog] at heq
  rcases List.eq_nil_or_concat h₂ with rfl | ⟨h₃, o, rfl⟩
  · simp at hread
  · rw [List.concat_eq_append, ← List.cons_append, ← List.append_assoc] at heq
    obtain rfl := List.singleton_inj.mp (List.append_inj' heq rfl).2
    simp at hlast

theorem clients_of_read (hs : step s w = some (s', out)) {fd : Port} {pkt : EtherPkt}
    (hread : Out.read fd pkt ∈ out) : s'.clients = s.clients := by
  cases iteration_of_step hs with
  | overrun | greetFailed | reject | accept | idle | disconnect => simp at hread
  | flood | unicast | writeFailed => rfl

theorem find?_fd_iff {cs₁ cs₂ : List ClientData} {c : ClientData} (R : ClientData → Prop)
    [DecidablePred R] (hnd : ((cs₁ ++ c :: cs₂).map ClientData.fd).Nodup) :
    ((cs₁ ++ c :: cs₂).find? fun d => decide (d.fd = c.fd ∨ R d)).map ClientData.fd = some c.fd ↔
      ∀ d ∈ cs₁, ¬ R d := by
  have hdistinct : ∀ d ∈ cs₁, d.fd ≠ c.fd := by
    rw [List.map_append, List.nodup_append] at hnd
    exact fun d hd => hnd.2.2 d.fd (List.mem_map_of_mem hd) c.fd (by simp)
  rw [List.find?_append]
  constructor
  · intro hfind d hd hr
    obtain ⟨e, he⟩ := Option.isSome_iff_exists.mp
      (List.find?_isSome (p := fun e => decide (e.fd = c.fd ∨ R e)) |>.mpr ⟨d, hd, by simp [hr]⟩)
    rw [he, Option.some_or, Option.map_some, Option.some.injEq] at hfind
    exact hdistinct e (List.mem_of_find?_eq_some he) hfind
  · intro hnone
    have hskip : cs₁.find? (fun e => decide (e.fd = c.fd ∨ R e)) = none := by
      simp only [List.find?_eq_none, decide_eq_true_eq, not_or]
      exact fun d hd => ⟨hdistinct d hd, hnone d hd⟩
    rw [hskip, Option.none_or, List.find?_cons_of_pos (by simp)]
    rfl

-- the lookup takes the first port in clients_ that holds the address: an older entry under a
-- client that connected earlier wins over the port the frame has just come from
theorem location_after_frame (p : Path (machine numPorts listenFd) ms s h)
    {mv : Move State Wake Out} (hmv : mv ∈ ms) {fd : Port} {pkt : EtherPkt}
    (hread : Out.read fd pkt ∈ mv.out) (hok : ∀ fd', Out.broken fd' ∉ mv.out) :
    hasArpEntry mv.after.btable mv.after.clients pkt.macSrc =
        (mv.before.clients.find? fun c =>
          decide (c.fd = fd ∨ Records (swept mv.before mv.event) c.fd pkt.macSrc)).map
            ClientData.fd ∧
      ∀ cs₁ c cs₂, mv.before.clients = cs₁ ++ c :: cs₂ → c.fd = fd →
        (hasArpEntry mv.after.btable mv.after.clients pkt.macSrc = some fd ↔
          ∀ d ∈ cs₁, ¬ Records (swept mv.before mv.event) d.fd pkt.macSrc) := by
  obtain ⟨_, -, hp, hs⟩ := p.before hmv
  have hw := wired hp
  have hrec : ∀ c : ClientData, Records mv.after.btable c.fd pkt.macSrc ↔
      (c.fd = fd ∨ Records (swept mv.before mv.event) c.fd pkt.macSrc) := by
    intro c
    rw [records_after_frame hw hs hread hok c.fd pkt.macSrc]
    simp [or_comm]
  have hlook : hasArpEntry mv.after.btable mv.after.clients pkt.macSrc =
      (mv.before.clients.find? fun c =>
        decide (c.fd = fd ∨ Records (swept mv.before mv.event) c.fd pkt.macSrc)).map
          ClientData.fd := by
    rw [hasArpEntry_eq, clients_of_read hs hread]
    simp only [hrec]
  refine ⟨hlook, ?_⟩
  rintro cs₁ c cs₂ hcs rfl
  have hnd := hw.distinct
  rw [hcs] at hnd
  rw [hlook, hcs]
  exact find?_fd_iff (fun d => Records (swept mv.before mv.event) d.fd pkt.macSrc) hnd

def moveRun : List Wake :=
  [.connect 3 4, .connect 3 5, .carry 4 (frameTo "" "M"), .carry 5 (frameTo "" "M")]

def movedFrame : Move State Wake Out := ((machine 2 3).moves moveRun).get ⟨3, by decide⟩

theorem movedFrame_mem : movedFrame ∈ (machine 2 3).moves moveRun := List.get_mem _ _

theorem movedFrame_out :
    movedFrame.out = [.read 5 (frameTo "" "M"), .write 4 (frameTo "" "M")] := by decide

theorem location_after_frame_moved :
    hasArpEntry movedFrame.after.btable movedFrame.after.clients "M" =
        (movedFrame.before.clients.find? fun c =>
          decide (c.fd = 5 ∨ Records (swept movedFrame.before movedFrame.event) c.fd "M")).map
            ClientData.fd ∧
      ∀ cs₁ c cs₂, movedFrame.before.clients = cs₁ ++ c :: cs₂ → c.fd = 5 →
        (hasArpEntry movedFrame.after.btable movedFrame.after.clients "M" = some 5 ↔
          ∀ d ∈ cs₁, ¬ Records (swept movedFrame.before movedFrame.event) d.fd "M") :=
  have hread : Out.read 5 (frameTo "" "M") ∈ movedFrame.out := by
    rw [movedFrame_out]
    decide
  location_after_frame ((machine 2 3).path moveRun (by decide)) movedFrame_mem hread
    (by simp [movedFrame_out])

theorem location_not_latest :
    ¬ ∀ (numPorts : Int) (listenFd : Port) (ms : List (Move State Wake Out)) (s : State)
      (h : List Out), Path (machine numPorts listenFd) ms s h → ∀ mv ∈ ms, ∀ fd pkt,
      Out.read fd pkt ∈ mv.out → (∀ fd', Out.broken fd' ∉ mv.out) → pkt.macSrc ≠ "" →
      hasArpEntry mv.after.btable mv.after.clients pkt.macSrc = some fd := by
  intro hall
  have hp := (machine 2 3).path moveRun (by decide)
  have hlast := hall _ _ _ _ _ hp movedFrame movedFrame_mem 5 (frameTo "" "M")
    (by rw [movedFrame_out]; decide) (by simp [movedFrame_out]) (by decide)
  exact absurd hlast (by decide)

end NetworkEmulator.Bridge
