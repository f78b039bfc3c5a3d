import NetworkEmulator.Bridge.Start

namespace NetworkEmulator.Bridge

open Transition

variable {numPorts : Int} {listenFd : Port} {ms : List (Move State Wake Out)} {s s' : State}
  {h : List Out} {w : Wake} {out : List Out}

theorem running_of_step (hs : step s w = some (s', out)) : s.stop = false := by
  unfold step at hs
  split at hs
  · simp at hs
  · rename_i hrun
    exact Bool.eq_false_iff.mpr fun hstop => hrun (Or.inl hstop)

theorem mem_learnSource {fd port : Port} {pkt : EtherPkt} {btable : BridgeTable} :
    port ∈ learnSource w fd pkt btable ↔ port ∈ btable := by
  unfold learnSource
  split_ifs
  · exact mem_addArpEntry
  · exact Iff.rfl

theorem mem_learnDestination {fd port : Port} {pkt : EtherPkt} {btable : BridgeTable} :
    port ∈ learnDestination w fd pkt btable ↔ port ∈ btable := by
  unfold learnDestination
  split_ifs
  · exact mem_addArpEntry
  · exact Iff.rfl

theorem records_learnSource {fd port : Port} {mac : MacAddr} {pkt : EtherPkt}
    {btable : BridgeTable} (hfd : fd ∈ btable) :
    Records (learnSource w fd pkt btable) port mac ↔
      (port = fd ∧ mac = pkt.macSrc) ∨ Records btable port mac := by
  by_cases hr : Records btable fd pkt.macSrc
  · simp only [learnSource, hasArpEntryOn_eq, hr, if_true, reduceCtorEq, if_false]
    refine ⟨Or.inr, ?_⟩
    rintro (⟨rfl, rfl⟩ | hr')
    · exact hr
    · exact hr'
  · simp only [learnSource, hasArpEntryOn_eq, hr, if_false, if_true]
    exact records_addArpEntry _ hfd

theorem records_learnDestination {fd port : Port} {mac : MacAddr} {pkt : EtherPkt}
    {btable : BridgeTable} (hfd : fd ∈ btable) :
    Records (learnDestination w fd pkt btable) port mac ↔
      (port = fd ∧ mac = pkt.macDst ∧ pkt.macDst ≠ "") ∨ Records btable port mac := by
  unfold learnDestination
  split_ifs with hd
  · rw [records_addArpEntry _ hfd]
    simp [hd]
  · simp at hd
    simp [hd]

theorem records_learnSource_of {fd port : Port} {mac : MacAddr} {pkt : EtherPkt}
    {btable : BridgeTable} (hr : Records (learnSource w fd pkt btable) port mac) :
    (port = fd ∧ mac = pkt.macSrc) ∨ Records btable port mac := by
  unfold learnSource at hr
  split_ifs at hr
  · exact records_of_addArpEntry hr
  · exact Or.inr hr

theorem records_learnDestination_of {fd port : Port} {mac : MacAddr} {pkt : EtherPkt}
    {btable : BridgeTable} (hr : Records (learnDestination w fd pkt btable) port mac) :
    (port = fd ∧ mac = pkt.macDst ∧ pkt.macDst ≠ "") ∨ Records btable port mac := by
  unfold learnDestination at hr
  split_ifs at hr with hd
  · exact (records_of_addArpEntry hr).imp (fun he => ⟨he.1, he.2, hd⟩) id
  · exact Or.inr hr

-- every client has a row in btable_, so the find() of add_arp_entry never answers end()
structure Wired (s : State) : Prop where
  rows : s.stop = false → ∀ c ∈ s.clients, c.fd ∈ s.btable
  distinct : (s.clients.map ClientData.fd).Nodup

theorem Wired.row (hw : Wired s) (hrun : s.stop = false) {i : Nat} {c : ClientData}
    (hi : s.clients[i]? = some c) : c.fd ∈ swept s w :=
  mem_monitor.mpr (hw.rows hrun c (List.mem_of_getElem? hi))

theorem nodup_pushClient (hw : Wired s) (fresh : w.cliFd ∉ openFds s) :
    ((s.clients ++ [ClientData.mk w.cliFd]).map ClientData.fd).Nodup := by
  simp only [openFds, List.mem_append, not_or] at fresh
  simp only [List.map_append, List.map_cons, List.map_nil]
  exact List.nodup_append.mpr ⟨hw.distinct, by simp, by
    intro a ha b hb
    obtain rfl := List.mem_singleton.mp hb
    exact fun he => fresh.2 (he ▸ ha)⟩

theorem wired_step (hw : Wired s) (hs : step s w = some (s', out)) : Wired s' := by
  have hrun := running_of_step hs
  have hrows : ∀ c ∈ s.clients, c.fd ∈ swept s w :=
    fun c hc => mem_monitor.mpr (hw.rows hrun c hc)
  cases iteration_of_step hs with
  | overrun _ fresh | greetFailed fresh =>
    have hd := nodup_pushClient hw fresh
    exact ⟨by simp, hd⟩
  | reject fresh =>
    constructor
    · simpa using fun _ => hrows
    · simpa using hw.distinct
  | accept fresh =>
    have hd := nodup_pushClient hw fresh
    refine ⟨fun _ c hc => mem_addPort.mpr ?_, hd⟩
    rcases List.mem_append.mp hc with hc | hc
    · exact Or.inr (hrows c hc)
    · exact Or.inl (congrArg ClientData.fd (List.mem_singleton.mp hc))
  | idle stop => exact ⟨fun _ => hrows, hw.distinct⟩
  | disconnect i c =>
    refine ⟨fun _ d hd => hrows d (List.mem_of_mem_eraseIdx hd), ?_⟩
    exact hw.distinct.sublist ((List.eraseIdx_sublist _ _).map _)
  | flood i c pkt =>
    exact ⟨fun _ d hd => mem_learnSource.mpr (mem_learnDestination.mpr (hrows d hd)), hw.distinct⟩
  | unicast i c pkt => exact ⟨fun _ d hd => mem_learnSource.mpr (hrows d hd), hw.distinct⟩
  | writeFailed i c pkt => exact ⟨by simp, hw.distinct⟩

theorem wired (p : Path (machine numPorts listenFd) ms s h) : Wired s :=
  p.invariant (fun s _ => Wired s) ⟨by simp [machine], by simp [machine]⟩
    (fun hw hs => wired_step hw hs)

theorem Wired.notMem_others (hw : Wired s) {i : Nat} {c : ClientData}
    (hi : s.clients[i]? = some c) : c.fd ∉ others s i := by
  obtain ⟨hlt, rfl⟩ := List.getElem?_eq_some_iff.mp hi
  have hperm := (List.getElem_cons_eraseIdx_perm hlt).map ClientData.fd
  have hnd := hperm.nodup_iff.mpr hw.distinct
  exact (List.nodup_cons.mp hnd).1

theorem Wired.nodup_others (hw : Wired s) (i : Nat) : (others s i).Nodup :=
  hw.distinct.sublist ((List.eraseIdx_sublist _ _).map _)

theorem mem_others {i : Nat} {c d : ClientData} (hi : s.clients[i]? = some c)
    (hd : d ∈ s.clients) (hne : d.fd ≠ c.fd) : d.fd ∈ others s i := by
  obtain ⟨hlt, rfl⟩ := List.getElem?_eq_some_iff.mp hi
  have hperm := List.getElem_cons_eraseIdx_perm hlt
  rcases List.mem_cons.mp (hperm.mem_iff.mpr hd) with rfl | hd
  · exact absurd rfl hne
  · exact List.mem_map_of_mem hd

theorem written_map_write (pkt : EtherPkt) (fds : List Port) :
    written (fds.map (.write · pkt)) = fds := by
  simp [written, List.filterMap_map]

theorem read_of_write (hs : step s w = some (s', out)) {fd : Port} {pkt : EtherPkt}
    (hw : Out.write fd pkt ∈ out) : ∃ fd', Out.read fd' pkt ∈ out := by
  cases iteration_of_step hs with
  | overrun | greetFailed | reject | accept | idle | disconnect => simp at hw
  | flood i c pkt' =>
    obtain ⟨-, rfl⟩ : fd ∈ others s i ∧ pkt' = pkt := by simpa using hw
    exact ⟨c.fd, List.mem_cons_self⟩
  | unicast i c pkt' nhopFd =>
    obtain ⟨-, rfl⟩ : fd = nhopFd ∧ pkt = pkt' := by simpa using hw
    exact ⟨c.fd, List.mem_cons_self⟩
  | writeFailed i c pkt' out hi hf hout =>
    obtain ⟨fd', heq⟩ := hout _ (by simpa using hw)
    simp at heq
    exact ⟨c.fd, by simp [heq.2]⟩

theorem read_head (hs : step s w = some (s', out)) {fd : Port} {pkt : EtherPkt}
    (hr : Out.read fd pkt ∈ out) : ∃ ws, out = .read fd pkt :: ws := by
  cases iteration_of_step hs with
  | overrun | greetFailed | reject | accept | idle | disconnect => simp at hr
  | flood i c pkt' => exact ⟨_, by simp at hr; rw [hr.1, hr.2]⟩
  | unicast i c pkt' nhopFd => exact ⟨_, by simp at hr; rw [hr.1, hr.2]⟩
  | writeFailed i c pkt' out hi hf hout =>
    refine ⟨out, ?_⟩
    rcases List.mem_cons.mp hr with heq | hmem
    · rw [heq]
    · obtain ⟨fd', heq | heq⟩ := hout _ hmem
      · cases heq
      · cases heq

theorem no_frame_of_listen (hs : step s w = some (s', out)) (hl : s.listenFd ∈ w.readSet)
    (fd : Port) (pkt : EtherPkt) : Out.read fd pkt ∉ out ∧ Out.write fd pkt ∉ out := by
  unfold step at hs
  split at hs
  · cases hs
  · obtain ⟨rfl, rfl⟩ := Prod.ext_iff.mp (Option.some.inj hs)
    have hl' : (afterSweep s w).listenFd ∈ w.readSet := hl
    unfold dispatch
    rw [if_pos hl']
    simp only [acceptClient]
    split_ifs <;> simp

theorem written_of_step (hw : Wired s) (hs : step s w = some (s', out)) :
    (∀ fd pkt, Out.write fd pkt ∉ out) ∨
      ∃ fd pkt ws, out = .read fd pkt :: ws ∧ (written ws).Nodup ∧
        ∀ o ∈ ws, ∃ fd', o = .write fd' pkt ∨ o = .broken fd' := by
  cases iteration_of_step hs with
  | overrun | greetFailed | reject | accept | idle | disconnect => exact Or.inl (by simp)
  | flood i c pkt =>
    refine Or.inr ⟨c.fd, pkt, _, rfl, ?_, ?_⟩
    · rw [written_map_write]
      exact hw.distinct.sublist ((List.eraseIdx_sublist _ _).map _)
    · intro o ho
      obtain ⟨fd', -, rfl⟩ := List.mem_map.mp ho
      exact ⟨fd', Or.inl rfl⟩
  | unicast i c pkt nhopFd =>
    exact Or.inr ⟨c.fd, pkt, _, rfl, List.nodup_singleton nhopFd, by simp⟩
  | writeFailed i c pkt out hi hf hout hbroken hsub =>
    exact Or.inr ⟨c.fd, pkt, out, rfl, hw.distinct.sublist hsub, hout⟩

end NetworkEmulator.Bridge
