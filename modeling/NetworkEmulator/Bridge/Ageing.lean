import NetworkEmulator.Bridge.Learning

namespace NetworkEmulator.Bridge

open Transition

variable {numPorts : Int} {listenFd : Port} {ms : List (Move State Wake Out)} {s s' : State}
  {h : List Out} {w : Wake} {out : List Out} {fd : Port} {mac : MacAddr} {stamp : Milliseconds}

def monitorArpCacheLoop (now : Milliseconds) (btable : BridgeTable) : BridgeTable :=
  btable.keys.foldl (fun btable port =>
    Table.update port (Table.eraseExpired (fun t => !decide (now - t > arpTime))) btable) btable

theorem monitorArpCacheLoop_eq (now : Milliseconds) (btable : BridgeTable) :
    monitorArpCacheLoop now btable = monitorArpCache now btable := by
  rw [monitorArpCacheLoop, Table.foldl_update_keys, monitorArpCache]
  exact Table.mapVals_congr fun _ values _ => Table.eraseExpired_eq_sweep _ values

structure Sweeps (mv : Move State Wake Out) : Prop where
  loop : monitorArpCacheLoop mv.event.sweep mv.before.btable = swept mv.before mv.event
  ports : ∀ fd, fd ∈ swept mv.before mv.event ↔ fd ∈ mv.before.btable
  entries : ∀ fd mac stamp, entry (swept mv.before mv.event) fd mac = some stamp ↔
    entry mv.before.btable fd mac = some stamp ∧ mv.event.sweep - stamp ≤ arpTime

theorem sweeps (mv : Move State Wake Out) : Sweeps mv :=
  ⟨monitorArpCacheLoop_eq _ _, fun _ => mem_monitor, fun _ _ _ => entry_monitor_some⟩

def Fresh (mv : Move State Wake Out) (fd : Port) (mac : MacAddr) : Prop :=
  ∃ stamp, entry mv.before.btable fd mac = some stamp ∧ mv.event.sweep - stamp ≤ arpTime

theorem fresh_iff {mv : Move State Wake Out} :
    Fresh mv fd mac ↔ Records (swept mv.before mv.event) fd mac := by
  rw [Records, Option.isSome_iff_exists]
  exact exists_congr fun stamp => ((sweeps mv).entries fd mac stamp).symm

def ForwardsFresh (mv : Move State Wake Out) : Prop :=
  ∀ fd pkt, Out.read fd pkt ∈ mv.out → (∀ fd', Out.broken fd' ∉ mv.out) →
    (∃ nhopFd, Fresh mv nhopFd pkt.macDst ∧ written mv.out = [nhopFd]) ∨
      (∀ c ∈ mv.before.clients, ¬ Fresh mv c.fd pkt.macDst) ∧
        ∀ fd', fd' ∈ written mv.out ↔ fd' ≠ fd ∧ ∃ c ∈ mv.before.clients, c.fd = fd'

theorem hasArpEntry_none {btable : BridgeTable} {clients : List ClientData}
    (hm : hasArpEntry btable clients mac = none) : ∀ c ∈ clients, ¬ Records btable c.fd mac := by
  rw [hasArpEntry_eq, Option.map_eq_none_iff, List.find?_eq_none] at hm
  simpa using hm

theorem forwardsFresh_step (hw : Wired s) (hs : step s w = some (s', out)) :
    ForwardsFresh ⟨s, h, w, s', out⟩ := by
  intro fd pkt hread hok
  simp only [fresh_iff]
  cases relays_of_read hs hread hok with
  | unicast i c nhopFd hi hm => exact Or.inl ⟨nhopFd, (hasArpEntry_some hm).1, rfl⟩
  | flood i c hi hm =>
    have hwritten : written (Out.read c.fd pkt :: (others s i).map (.write · pkt)) = others s i :=
      written_map_write pkt _
    refine Or.inr ⟨hasArpEntry_none hm, fun fd' => ?_⟩
    rw [hwritten]
    constructor
    · intro hfd
      obtain ⟨d, hd, rfl⟩ := List.mem_map.mp hfd
      exact ⟨fun he => hw.notMem_others hi (he ▸ hfd), d, List.mem_of_mem_eraseIdx hd, rfl⟩
    · rintro ⟨hne, d, hd, rfl⟩
      exact mem_others hi hd hne

theorem forwards_only_fresh (p : Path (machine numPorts listenFd) ms s h)
    {mv : Move State Wake Out} (hmv : mv ∈ ms) : Sweeps mv ∧ ForwardsFresh mv := by
  obtain ⟨_, -, hp, hs⟩ := p.before hmv
  exact ⟨sweeps mv, forwardsFresh_step (wired hp) hs⟩

def Wake.at (w : Wake) (now : Milliseconds) : Wake :=
  { w with sweep := now, learnDst := now, learnSrc := now }

def staleRun : List Wake :=
  [.connect 3 4, .connect 3 5, (Wake.carry 4 (frameTo "" "A")).at 0,
    (Wake.carry 5 (frameTo "A" "B")).at 10001]

def staleForward : Move State Wake Out := ((machine 2 3).moves staleRun).get ⟨3, by decide⟩

theorem forwards_only_fresh_stale : Sweeps staleForward ∧ ForwardsFresh staleForward :=
  forwards_only_fresh ((machine 2 3).path staleRun (by decide)) (List.get_mem _ _)

-- the clock does not go back: within an iteration, and from one iteration to the next
structure Clocked (ms : List (Move State Wake Out)) : Prop where
  within : ∀ mv ∈ ms, mv.event.sweep ≤ mv.event.learnDst ∧ mv.event.learnDst ≤ mv.event.learnSrc
  across : ms.Pairwise fun mv₁ mv₂ => mv₁.event.learnSrc ≤ mv₂.event.sweep

def Active (ms : List (Move State Wake Out)) (mv₁ mv₂ : Move State Wake Out) (fd : Port)
    (mac : MacAddr) : Prop :=
  ∃ ms₁ gap ms₂ pkt, ms = ms₁ ++ mv₁ :: (gap ++ mv₂ :: ms₂) ∧
    Out.read fd pkt ∈ mv₁.out ∧ (∀ fd', Out.broken fd' ∉ mv₁.out) ∧ pkt.macSrc = mac ∧ mac ≠ "" ∧
    (∀ mv ∈ gap, Out.disconnect fd ∉ mv.out) ∧
    mv₂.event.sweep - mv₁.event.learnDst ≤ arpTime

structure Kept (ms : List (Move State Wake Out)) : Prop where
  learned : ∀ mv ∈ ms, ∀ fd pkt, Out.read fd pkt ∈ mv.out → (∀ fd', Out.broken fd' ∉ mv.out) →
    pkt.macSrc ≠ "" → Records mv.after.btable fd pkt.macSrc
  later : ∀ mv₁ mv₂ fd mac, Active ms mv₁ mv₂ fd mac →
    Records (swept mv₂.before mv₂.event) fd mac ∧ Records mv₂.after.btable fd mac

def Unaged (ms : List (Move State Wake Out)) : Prop :=
  ∀ mv₁ mv₂ fd mac, Active ms mv₁ mv₂ fd mac → ∀ stamp,
    entry (swept mv₁.before mv₁.event) fd mac = some stamp → mv₂.event.sweep - stamp ≤ arpTime

theorem entry_learn {port : Port} {now : Milliseconds} {mac' : MacAddr} {btable : BridgeTable}
    (ht : entry btable fd mac = some stamp) :
    entry (addArpEntry port mac' now btable) fd mac = some stamp := by
  by_cases hp : port ∈ btable
  · rw [entry_addArpEntry now hp]
    split_ifs with he
    · obtain ⟨rfl, rfl⟩ := he
      rw [ht]
      rfl
    · exact ht
  · by_cases hpp : fd = port
    · subst hpp
      have hn := AList.lookup_eq_none.mpr hp
      simp [entry, hn] at ht
    · simpa [entry, addArpEntry, Table.lookup_update_ne hpp] using ht

theorem entry_learnSource {port : Port} {pkt : EtherPkt} {btable : BridgeTable}
    (ht : entry btable fd mac = some stamp) :
    entry (learnSource w port pkt btable) fd mac = some stamp := by
  unfold learnSource
  split_ifs
  · exact entry_learn ht
  · exact ht

theorem entry_learnDestination {port : Port} {pkt : EtherPkt} {btable : BridgeTable}
    (ht : entry btable fd mac = some stamp) :
    entry (learnDestination w port pkt btable) fd mac = some stamp := by
  unfold learnDestination
  split_ifs
  · exact entry_learn ht
  · exact ht

-- map::insert leaves an entry that is there as it is: only the sweep takes one away
theorem entry_step (hs : step s w = some (s', out))
    (ht : entry (swept s w) fd mac = some stamp) : entry s'.btable fd mac = some stamp := by
  cases iteration_of_step hs with
  | overrun | greetFailed | reject | idle | disconnect | writeFailed => exact ht
  | accept => exact (entry_addPort _ _ _ _).trans ht
  | flood => exact entry_learnSource (entry_learnDestination ht)
  | unicast => exact entry_learnSource ht

theorem learnSource_stamp {pkt : EtherPkt} {btable : BridgeTable} (hrow : fd ∈ btable)
    (hnone : entry btable fd pkt.macSrc = none) :
    entry (learnSource w fd pkt btable) fd pkt.macSrc = some w.learnSrc := by
  have hr : ¬ Records btable fd pkt.macSrc := by simp [Records, hnone]
  simp [learnSource, hasArpEntryOn_eq, hr, entry_addArpEntry _ hrow, hnone]

-- a frame to its own address is learned as a destination before it is learned as a source
theorem stamp_of_frame (hw : Wired s) (hs : step s w = some (s', out))
    (hle : w.learnDst ≤ w.learnSrc) {pkt : EtherPkt} (hread : Out.read fd pkt ∈ out)
    (hok : ∀ fd', Out.broken fd' ∉ out) (hnone : entry (swept s w) fd pkt.macSrc = none) :
    ∃ stamp, entry s'.btable fd pkt.macSrc = some stamp ∧ w.learnDst ≤ stamp := by
  have hrun := running_of_step hs
  cases relays_of_read hs hread hok with
  | unicast i c nhopFd hi =>
    exact ⟨w.learnSrc, learnSource_stamp (hw.row hrun hi) hnone, hle⟩
  | flood i c hi =>
    have hrow : c.fd ∈ swept s w := hw.row hrun hi
    cases hd : entry (learnDestination w c.fd pkt (swept s w)) c.fd pkt.macSrc with
    | none => exact ⟨w.learnSrc, learnSource_stamp (mem_learnDestination.mpr hrow) hd, hle⟩
    | some stamp =>
      refine ⟨stamp, entry_learnSource hd, ?_⟩
      unfold learnDestination at hd
      split_ifs at hd
      · rw [entry_addArpEntry _ hrow] at hd
        split_ifs at hd with he
        · rw [← he.2, hnone] at hd
          exact le_of_eq (Option.some.inj hd)
        · exact absurd (hnone.symm.trans hd) (by simp)
      · exact absurd (hnone.symm.trans hd) (by simp)

theorem entry_kept {ms₁ gap : List (Move State Wake Out)} {mv : Move State Wake Out}
    (p : Path (machine numPorts listenFd) (ms₁ ++ mv :: gap) s h)
    (ht : entry mv.after.btable fd mac = some stamp)
    (hgap : ∀ mv' ∈ gap, mv'.event.sweep - stamp ≤ arpTime) :
    entry s.btable fd mac = some stamp :=
  p.along (fun s => entry s.btable fd mac = some stamp)
    (fun ht hs hle => entry_step hs (entry_monitor_some.mpr ⟨ht, hle⟩)) ht hgap

theorem Clocked.le {ms₁ gap ms₂ : List (Move State Wake Out)} {mv₁ mv₂ : Move State Wake Out}
    (hc : Clocked (ms₁ ++ mv₁ :: (gap ++ mv₂ :: ms₂))) :
    (∀ mv ∈ gap, mv.event.sweep ≤ mv₂.event.sweep) ∧ mv₁.event.learnSrc ≤ mv₂.event.sweep := by
  have hpair := (List.pairwise_cons.mp (List.pairwise_append.mp hc.across).2.1)
  refine ⟨fun mv hmv => ?_, hpair.1 mv₂ (by simp)⟩
  obtain ⟨hle, hle'⟩ := hc.within mv (by simp [hmv])
  have hacross := (List.pairwise_append.mp hpair.2).2.2 mv hmv mv₂ (by simp)
  exact (hle.trans hle').trans hacross

theorem fresh_of_kept {ms₁ gap ms₂ : List (Move State Wake Out)} {mv₁ mv₂ : Move State Wake Out}
    (p : Path (machine numPorts listenFd) ms s h) (hclock : Clocked ms) (hkept : Kept ms)
    (hms : ms = ms₁ ++ mv₁ :: (gap ++ mv₂ :: ms₂)) {pkt : EtherPkt}
    (hread : Out.read fd pkt ∈ mv₁.out) (hok : ∀ fd', Out.broken fd' ∉ mv₁.out)
    (hne : pkt.macSrc ≠ "") (hup : ∀ mv ∈ gap, Out.disconnect fd ∉ mv.out)
    (hle : mv₂.event.sweep - mv₁.event.learnDst ≤ arpTime)
    (ht : entry (swept mv₁.before mv₁.event) fd pkt.macSrc = some stamp) :
    mv₂.event.sweep - stamp ≤ arpTime := by
  induction hn : gap.length using Nat.strong_induction_on generalizing gap mv₂ ms₂ with
  | _ n ih =>
    have hgap : ∀ mv ∈ gap, mv.event.sweep - stamp ≤ arpTime := by
      intro mv hmv
      have hsweep : mv.event.sweep ≤ mv₂.event.sweep := (hms ▸ hclock).le.1 mv hmv
      obtain ⟨before, after, rfl⟩ := List.append_of_mem hmv
      have hms' : ms = ms₁ ++ mv₁ :: (before ++ mv :: (after ++ mv₂ :: ms₂)) := by simp [hms]
      refine ih before.length (by simp [← hn]) hms'
        (fun mv' hmv' => hup mv' (List.mem_append_left _ hmv')) ?_ rfl
      exact (Int.sub_le_sub_right hsweep _).trans hle
    have hactive : Active ms mv₁ mv₂ fd pkt.macSrc :=
      ⟨ms₁, gap, ms₂, pkt, hms, hread, hok, rfl, hne, hup, hle⟩
    obtain ⟨stamp', hstamp⟩ := Option.isSome_iff_exists.mp (hkept.later mv₁ mv₂ fd pkt.macSrc hactive).1
    obtain ⟨hbtable, hfresh⟩ := entry_monitor_some.mp hstamp
    rw [hms] at p
    have hs := p.at_move.2
    rw [← List.cons_append, ← List.append_assoc] at p
    have hentry := entry_kept p.at_move.1 (entry_step hs ht) hgap
    obtain rfl := Option.some.inj (hbtable.symm.trans hentry)
    exact hfresh

theorem kept_of_fresh {ms₁ gap ms₂ : List (Move State Wake Out)} {mv₁ mv₂ : Move State Wake Out}
    (p : Path (machine numPorts listenFd) (ms₁ ++ mv₁ :: (gap ++ mv₂ :: ms₂)) s h)
    (hclock : Clocked (ms₁ ++ mv₁ :: (gap ++ mv₂ :: ms₂)))
    (ht : entry mv₁.after.btable fd mac = some stamp)
    (hfresh : mv₂.event.sweep - stamp ≤ arpTime) :
    Records (swept mv₂.before mv₂.event) fd mac ∧ Records mv₂.after.btable fd mac := by
  rw [← List.cons_append, ← List.append_assoc] at p
  obtain ⟨hp, hs⟩ := p.at_move
  have hentry := entry_kept hp ht fun mv hmv =>
    (Int.sub_le_sub_right (hclock.le.1 mv hmv) _).trans hfresh
  have hswept := entry_monitor_some.mpr ⟨hentry, hfresh⟩
  constructor
  · rw [Records, swept, hswept]
    rfl
  · rw [Records, entry_step hs hswept]
    rfl

theorem learned_after_frame (p : Path (machine numPorts listenFd) ms s h)
    {mv : Move State Wake Out} (hmv : mv ∈ ms) {pkt : EtherPkt} (hread : Out.read fd pkt ∈ mv.out)
    (hok : ∀ fd', Out.broken fd' ∉ mv.out) : Records mv.after.btable fd pkt.macSrc := by
  obtain ⟨_, -, hp, hs⟩ := p.before hmv
  apply (records_after_frame (wired hp) hs hread hok fd pkt.macSrc).mpr
  exact Or.inr ⟨rfl, Or.inl rfl⟩

theorem active_station_kept_iff (p : Path (machine numPorts listenFd) ms s h)
    (hclock : Clocked ms) : Kept ms ↔ Unaged ms := by
  constructor
  · rintro hkept mv₁ mv₂ fd mac ⟨ms₁, gap, ms₂, pkt, hms, hread, hok, rfl, hne, hup, hle⟩ stamp ht
    exact fresh_of_kept p hclock hkept hms hread hok hne hup hle ht
  · intro hunaged
    refine ⟨fun mv hmv fd pkt hread hok _ => learned_after_frame p hmv hread hok, ?_⟩
    intro mv₁ mv₂ fd mac hactive
    have hage := hunaged mv₁ mv₂ fd mac hactive
    obtain ⟨ms₁, gap, ms₂, pkt, rfl, hread, hok, rfl, -, -, hle⟩ := hactive
    obtain ⟨hp, hs⟩ := p.at_move
    have hlearn := (hclock.within mv₁ (by simp)).2
    cases hold : entry (swept mv₁.before mv₁.event) fd pkt.macSrc with
    | some stamp => exact kept_of_fresh p hclock (entry_step hs hold) (hage stamp hold)
    | none =>
      obtain ⟨stamp, ht, hge⟩ := stamp_of_frame (wired hp) hs hlearn hread hok hold
      exact kept_of_fresh p hclock ht ((Int.sub_le_sub_left hge _).trans hle)

-- 4 sends again one second before its entry is due and is forgotten one second later
def keepaliveRun : List Wake :=
  [.connect 3 4, (Wake.carry 4 (frameTo "" "A")).at 1, (Wake.carry 4 (frameTo "" "A")).at 9000,
    Wake.blank.at 10002]

theorem keepalive_clocked : Clocked ((machine 2 3).moves keepaliveRun) :=
  ⟨by decide, by decide⟩

theorem active_station_kept_iff_keepalive :
    Kept ((machine 2 3).moves keepaliveRun) ↔ Unaged ((machine 2 3).moves keepaliveRun) :=
  active_station_kept_iff ((machine 2 3).path keepaliveRun (by decide)) keepalive_clocked

theorem active_station_forgotten :
    ¬ ∀ (numPorts : Int) (listenFd : Port) (ms : List (Move State Wake Out)) (s : State)
      (h : List Out), Path (machine numPorts listenFd) ms s h → Clocked ms → Kept ms := by
  intro hall
  have hkept := hall _ _ _ _ _ ((machine 2 3).path keepaliveRun (by decide)) keepalive_clocked
  let moves := (machine 2 3).moves keepaliveRun
  let mv₁ := moves.get ⟨2, by decide⟩
  let mv₂ := moves.get ⟨3, by decide⟩
  have hout : mv₁.out = [.read 4 (frameTo "" "A")] := by decide
  have hlen : moves.length = 4 := by decide
  have hsplit : moves = moves.take 2 ++ mv₁ :: ([] ++ mv₂ :: []) := by
    have hend : moves.drop 4 = [] := List.drop_eq_nil_of_le (Nat.le_of_eq hlen)
    have hlast : moves.drop 3 = mv₂ :: moves.drop 4 := List.drop_eq_getElem_cons (by simp [hlen])
    have hrest : moves.drop 2 = mv₁ :: moves.drop 3 := List.drop_eq_getElem_cons (by simp [hlen])
    rw [List.nil_append, ← hend, ← hlast, ← hrest, List.take_append_drop]
  have hactive : Active moves mv₁ mv₂ 4 "A" :=
    ⟨moves.take 2, [], [], frameTo "" "A", hsplit, by simp [hout], by simp [hout], rfl, by decide,
      by simp, by decide⟩
  exact absurd (hkept.later mv₁ mv₂ 4 "A" hactive).1 (by decide)

end NetworkEmulator.Bridge
