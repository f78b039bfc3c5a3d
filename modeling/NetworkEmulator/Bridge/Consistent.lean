import NetworkEmulator.Bridge.Wired
import Mathlib.Data.Finset.Basic
import Mathlib.Data.Finset.Dedup

namespace NetworkEmulator.Bridge

open Transition

variable {numPorts : Int} {listenFd : Port} {ms : List (Move State Wake Out)} {s s' : State}
  {h : List Out} {w : Wake} {out : List Out}

def fds (clients : List ClientData) : List Port := clients.map ClientData.fd

structure Consistent (numPorts : Int) (listenFd : Port) (s : State) : Prop where
  counter : s.currPorts = s.clients.length
  capacity : s.currPorts ≤ max numPorts 0
  distinct : (fds s.clients).Nodup
  watched : s.allSet = {0, listenFd} ∪ (fds s.clients).toFinset
  highest : ∀ fd ∈ s.allSet, fd ≤ s.maxFd
  rows : ∀ c ∈ s.clients, c.fd ∈ s.btable

-- NUM_PORTS_ and listen_fd_ are const after the constructor, and a client is neither of the two
-- descriptors that are always watched
structure Configured (numPorts : Int) (listenFd : Port) (s : State) : Prop where
  bound : s.numPorts = numPorts
  listens : s.listenFd = listenFd
  reserved : ∀ fd ∈ fds s.clients, fd ≠ 0 ∧ fd ≠ listenFd

theorem fds_snoc (clients : List ClientData) (fd : Port) :
    fds (clients ++ [⟨fd⟩]) = fds clients ++ [fd] := by
  simp [fds]

theorem fds_eraseIdx_subset (clients : List ClientData) (i : Nat) :
    fds (clients.eraseIdx i) ⊆ fds clients :=
  ((List.eraseIdx_sublist _ _).map _).subset

theorem mem_fds_eraseIdx (hnd : (fds s.clients).Nodup) {i : Nat} {c : ClientData}
    (hi : s.clients[i]? = some c) {fd : Port} :
    fd ∈ fds (s.clients.eraseIdx i) ↔ fd ≠ c.fd ∧ fd ∈ fds s.clients := by
  obtain ⟨hlt, rfl⟩ := List.getElem?_eq_some_iff.mp hi
  have hperm := (List.getElem_cons_eraseIdx_perm hlt).map ClientData.fd
  have hnot := (List.nodup_cons.mp (hperm.nodup_iff.mpr hnd)).1
  rw [fds, fds, ← hperm.mem_iff, List.map_cons, List.mem_cons]
  constructor
  · intro hmem
    exact ⟨fun he => hnot (he ▸ hmem), Or.inr hmem⟩
  · rintro ⟨hne, he | hmem⟩
    · exact absurd he hne
    · exact hmem

theorem fresh_fds (hc : Configured numPorts listenFd s) (fresh : w.cliFd ∉ openFds s) :
    w.cliFd ≠ 0 ∧ w.cliFd ≠ listenFd ∧ w.cliFd ∉ fds s.clients := by
  simp only [openFds, List.mem_append, List.mem_cons, List.not_mem_nil, or_false, not_or] at fresh
  obtain ⟨⟨h0, -, -, hl⟩, hcl⟩ := fresh
  exact ⟨h0, hc.listens ▸ hl, hcl⟩

theorem configured_step (hc : Configured numPorts listenFd s) (hs : step s w = some (s', out)) :
    Configured numPorts listenFd s' := by
  cases iteration_of_step hs with
  | overrun _ fresh | greetFailed fresh | accept fresh =>
    obtain ⟨h0, hl, -⟩ := fresh_fds hc fresh
    refine ⟨hc.bound, hc.listens, ?_⟩
    intro fd hfd
    rcases List.mem_append.mp (fds_snoc s.clients w.cliFd ▸ hfd) with hfd | hfd
    · exact hc.reserved fd hfd
    · rw [List.mem_singleton.mp hfd]
      exact ⟨h0, hl⟩
  | reject fresh =>
    refine ⟨hc.bound, hc.listens, ?_⟩
    simpa using hc.reserved
  | disconnect i c =>
    exact ⟨hc.bound, hc.listens,
      fun fd hfd => hc.reserved fd (fds_eraseIdx_subset s.clients i hfd)⟩
  | idle | flood | unicast | writeFailed => exact ⟨hc.bound, hc.listens, hc.reserved⟩

theorem configured (p : Path (machine numPorts listenFd) ms s h) :
    Configured numPorts listenFd s :=
  p.invariant (fun s _ => Configured numPorts listenFd s) ⟨rfl, rfl, by simp [machine, fds]⟩
    (fun hc hs => configured_step hc hs)

theorem le_pushClient_maxFd (fd : Port) : s.maxFd ≤ (pushClient s fd).maxFd := by
  unfold pushClient
  split_ifs with hgt
  · exact Int.le_of_lt hgt
  · exact Int.le_refl _

theorem fd_le_pushClient_maxFd (fd : Port) : fd ≤ (pushClient s fd).maxFd := by
  unfold pushClient
  split_ifs with hgt
  · exact Int.le_refl _
  · exact Int.not_lt.mp hgt

theorem consistent_accept (hp : Configured numPorts listenFd s)
    (hc : Consistent numPorts listenFd s) (fresh : w.cliFd ∉ openFds s)
    (room : s.currPorts + 1 ≤ s.numPorts) (fits : w.cliFd < fdSetSize) :
    Consistent numPorts listenFd
      { pushClient (afterSweep s w) w.cliFd with btable := addPort w.cliFd (swept s w) } := by
  obtain ⟨-, -, hnew⟩ := fresh_fds hp fresh
  have hset : (pushClient (afterSweep s w) w.cliFd).allSet = insert w.cliFd s.allSet := if_pos fits
  constructor
  · simp [pushClient, afterSweep, hc.counter]
  · have hroom := hp.bound ▸ room
    change s.currPorts + 1 ≤ max numPorts 0
    omega
  · change (fds (s.clients ++ [⟨w.cliFd⟩])).Nodup
    rw [fds_snoc, List.nodup_append]
    refine ⟨hc.distinct, List.nodup_singleton _, ?_⟩
    rintro a ha b hb rfl
    exact hnew (List.mem_singleton.mp hb ▸ ha)
  · change (pushClient (afterSweep s w) w.cliFd).allSet =
      {0, listenFd} ∪ (fds (s.clients ++ [⟨w.cliFd⟩])).toFinset
    rw [hset, fds_snoc, hc.watched]
    ext fd
    simp only [Finset.mem_insert, Finset.mem_union, List.mem_toFinset, List.mem_append,
      List.mem_singleton]
    tauto
  · intro fd hfd
    change fd ∈ (pushClient (afterSweep s w) w.cliFd).allSet at hfd
    rw [hset] at hfd
    rcases Finset.mem_insert.mp hfd with rfl | hfd
    · exact fd_le_pushClient_maxFd _
    · exact (hc.highest fd hfd).trans (le_pushClient_maxFd (s := afterSweep s w) _)
  · intro c hcl
    refine mem_addPort.mpr ?_
    rcases List.mem_append.mp hcl with hcl | hcl
    · exact Or.inr (mem_monitor.mpr (hc.rows c hcl))
    · exact Or.inl (congrArg ClientData.fd (List.mem_singleton.mp hcl))

theorem consistent_reject (hp : Configured numPorts listenFd s)
    (hc : Consistent numPorts listenFd s) (fresh : w.cliFd ∉ openFds s)
    (fits : w.cliFd < fdSetSize) :
    Consistent numPorts listenFd
      (removeClient (pushClient (afterSweep s w) w.cliFd) w.cliFd s.clients.length) := by
  obtain ⟨h0, hl, hnew⟩ := fresh_fds hp fresh
  have hout : w.cliFd ∉ s.allSet := by
    rw [hc.watched]
    simp [h0, hl, hnew]
  have hset : (removeClient (pushClient (afterSweep s w) w.cliFd) w.cliFd s.clients.length).allSet =
      s.allSet := by
    change (fdSet w.cliFd s.allSet).erase w.cliFd = s.allSet
    rw [fdSet, if_pos fits, Finset.erase_insert hout]
  have hclients : (removeClient (pushClient (afterSweep s w) w.cliFd) w.cliFd
      s.clients.length).clients = s.clients := by simp
  have hcurr : (removeClient (pushClient (afterSweep s w) w.cliFd) w.cliFd
      s.clients.length).currPorts = s.currPorts := by
    change s.currPorts + 1 - 1 = s.currPorts
    omega
  constructor
  · rw [hcurr, hclients, hc.counter]
  · rw [hcurr]
    exact hc.capacity
  · rw [hclients]
    exact hc.distinct
  · rw [hset, hclients, hc.watched]
  · rw [hset]
    exact fun fd hfd => (hc.highest fd hfd).trans (le_pushClient_maxFd (s := afterSweep s w) _)
  · rw [hclients]
    exact fun c hcl => mem_monitor.mpr (hc.rows c hcl)

theorem consistent_disconnect (hp : Configured numPorts listenFd s)
    (hc : Consistent numPorts listenFd s) {i : Nat} {c : ClientData}
    (hi : s.clients[i]? = some c) :
    Consistent numPorts listenFd (removeClient (afterSweep s w) c.fd i) := by
  have hmem : c.fd ∈ fds s.clients := List.mem_map_of_mem (List.mem_of_getElem? hi)
  obtain ⟨h0, hl⟩ := hp.reserved c.fd hmem
  have hlt := (List.getElem?_eq_some_iff.mp hi).1
  have hlen : (s.clients.eraseIdx i).length + 1 = s.clients.length := by
    rw [List.length_eraseIdx_of_lt hlt]
    omega
  constructor
  · change s.currPorts - 1 = ((s.clients.eraseIdx i).length : Int)
    rw [hc.counter]
    omega
  · change s.currPorts - 1 ≤ max numPorts 0
    have hcap := hc.capacity
    omega
  · exact hc.distinct.sublist ((List.eraseIdx_sublist _ _).map _)
  · change s.allSet.erase c.fd = {0, listenFd} ∪ (fds (s.clients.eraseIdx i)).toFinset
    ext fd
    simp only [hc.watched, Finset.mem_erase, Finset.mem_union, Finset.mem_insert,
      Finset.mem_singleton, List.mem_toFinset, mem_fds_eraseIdx hc.distinct hi]
    constructor
    · rintro ⟨hne, hfd | hfd⟩
      · exact Or.inl hfd
      · exact Or.inr ⟨hne, hfd⟩
    · rintro (hfd | ⟨hne, hfd⟩)
      · exact ⟨by rcases hfd with rfl | rfl; exacts [h0.symm, hl.symm], Or.inl hfd⟩
      · exact ⟨hne, Or.inr hfd⟩
  · exact fun fd hfd => hc.highest fd (Finset.mem_of_mem_erase hfd)
  · exact fun d hd => mem_monitor.mpr (hc.rows d (List.mem_of_mem_eraseIdx hd))

theorem consistent_btable (hc : Consistent numPorts listenFd s) {btable : BridgeTable}
    (hrows : ∀ fd, fd ∈ s.btable → fd ∈ btable) (stop : Bool) :
    Consistent numPorts listenFd { s with btable := btable, stop := stop } :=
  ⟨hc.counter, hc.capacity, hc.distinct, hc.watched, hc.highest,
    fun c hcl => hrows c.fd (hc.rows c hcl)⟩

theorem consistent_step (hp : Configured numPorts listenFd s)
    (hc : Consistent numPorts listenFd s) (hs : step s w = some (s', out))
    (hok : ∀ fd, Out.broken fd ∉ out) (hfit : ∀ fd, Out.overrun fd ∉ out) :
    Consistent numPorts listenFd s' := by
  have hrow : ∀ fd, fd ∈ s.btable → fd ∈ swept s w := fun _ hfd => mem_monitor.mpr hfd
  cases iteration_of_step hs with
  | overrun => exact absurd List.mem_cons_self (hfit w.cliFd)
  | greetFailed => exact absurd List.mem_cons_self (hok w.cliFd)
  | reject fresh _ fits => exact consistent_reject hp hc fresh fits
  | accept fresh room fits => exact consistent_accept hp hc fresh room fits
  | idle stop => exact consistent_btable hc hrow stop
  | disconnect i c hi => exact consistent_disconnect hp hc hi
  | flood i c pkt =>
    exact consistent_btable hc
      (fun fd hfd => mem_learnSource.mpr (mem_learnDestination.mpr (hrow fd hfd))) s.stop
  | unicast i c pkt =>
    exact consistent_btable hc (fun fd hfd => mem_learnSource.mpr (hrow fd hfd)) s.stop
  | writeFailed i c pkt => exact consistent_btable hc hrow true

theorem written_to_client (hs : step s w = some (s', out)) {fd : Port} {pkt : EtherPkt}
    (hw : Out.write fd pkt ∈ out) : fd ∈ fds s.clients := by
  cases iteration_of_step hs with
  | overrun | greetFailed | reject | accept | idle | disconnect => simp at hw
  | flood i c pkt' =>
    obtain ⟨fd', hfd, heq⟩ := List.mem_map.mp (List.mem_of_ne_of_mem (by simp) hw)
    obtain ⟨rfl, -⟩ := Out.write.inj heq
    exact fds_eraseIdx_subset s.clients i hfd
  | unicast i c pkt' nhopFd hi hf hm =>
    obtain ⟨rfl, -⟩ : fd = nhopFd ∧ pkt = pkt' := by simpa using hw
    obtain ⟨-, d, hd, rfl⟩ := hasArpEntry_some hm
    exact List.mem_map_of_mem hd
  | writeFailed i c pkt' out hi hf hout hbroken hsub =>
    have hmem : Out.write fd pkt ∈ out := List.mem_of_ne_of_mem (by simp) hw
    exact hsub.subset (List.mem_filterMap.mpr ⟨_, hmem, rfl⟩)

theorem consistent_init (hl : 0 ≤ listenFd) (fits : listenFd < fdSetSize) :
    Consistent numPorts listenFd (machine numPorts listenFd).init := by
  have hset : (machine numPorts listenFd).init.allSet = {listenFd, 0} := if_pos fits
  refine ⟨rfl, le_max_right _ _, List.nodup_nil, ?_, ?_, by simp [machine]⟩
  · rw [hset]
    ext fd
    simp [machine, fds, or_comm]
  · intro fd hfd
    rw [hset, Finset.mem_insert, Finset.mem_singleton] at hfd
    rcases hfd with rfl | rfl
    · exact Int.le_refl _
    · exact hl

-- FD_SETSIZE bounds what accept may return, and listen_fd_ itself
def Fits (listenFd : Port) (ms : List (Move State Wake Out)) : Prop :=
  listenFd < fdSetSize ∧
    ∀ mv ∈ ms, listenFd ∈ mv.event.readSet → mv.event.cliFd < fdSetSize

theorem mem_fdSet {fd fd' : Port} {set : Finset Port} (hmem : fd ∈ fdSet fd' set) :
    fd = fd' ∧ fd < fdSetSize ∨ fd ∈ set := by
  unfold fdSet at hmem
  split_ifs at hmem with fits
  · rcases Finset.mem_insert.mp hmem with rfl | hmem
    · exact Or.inl ⟨rfl, fits⟩
    · exact Or.inr hmem
  · exact Or.inr hmem

theorem bits_step (hb : ∀ fd ∈ s.allSet, fd < fdSetSize) (hs : step s w = some (s', out)) :
    ∀ fd ∈ s'.allSet, fd < fdSetSize := by
  have hpush : ∀ fd ∈ (pushClient (afterSweep s w) w.cliFd).allSet, fd < fdSetSize := by
    intro fd hfd
    rcases mem_fdSet hfd with ⟨-, fits⟩ | hfd
    · exact fits
    · exact hb fd hfd
  cases iteration_of_step hs with
  | overrun | greetFailed | accept => exact hpush
  | reject => exact fun fd hfd => hpush fd (Finset.mem_of_mem_erase hfd)
  | disconnect => exact fun fd hfd => hb fd (Finset.mem_of_mem_erase hfd)
  | idle | flood | unicast | writeFailed => exact hb

theorem bits (p : Path (machine numPorts listenFd) ms s h) : ∀ fd ∈ s.allSet, fd < fdSetSize := by
  refine p.invariant (fun s _ => ∀ fd ∈ s.allSet, fd < fdSetSize) ?_ fun hb hs => bits_step hb hs
  intro fd hfd
  rcases mem_fdSet hfd with ⟨-, fits⟩ | hfd
  · exact fits
  · rw [Finset.mem_singleton.mp hfd]
    decide

theorem overrun_of_step (hs : step s w = some (s', out)) (hl : s.listenFd ∈ w.readSet)
    (past : fdSetSize ≤ w.cliFd) : s'.stop = true ∧ w.cliFd ∈ fds s'.clients := by
  unfold step at hs
  split at hs
  · cases hs
  · obtain ⟨rfl, rfl⟩ := Prod.ext_iff.mp (Option.some.inj hs)
    have hl' : (afterSweep s w).listenFd ∈ w.readSet := hl
    unfold dispatch acceptClient
    rw [if_pos hl', if_pos past]
    refine ⟨rfl, ?_⟩
    change w.cliFd ∈ fds (s.clients ++ [⟨w.cliFd⟩])
    simp [fds_snoc]

theorem last_of_stop (p : Path (machine numPorts listenFd) ms s h) {mv : Move State Wake Out}
    (hmv : mv ∈ ms) (hstop : mv.after.stop = true) : s = mv.after := by
  induction p with
  | nil => cases hmv
  | snoc p hs ih =>
    rcases List.mem_append.mp hmv with hmv | hmv
    · rw [← ih hmv, running_of_step hs] at hstop
      cases hstop
    · rw [List.mem_singleton.mp hmv]

theorem fits_of_consistent (p : Path (machine numPorts listenFd) ms s h)
    (hc : Consistent numPorts listenFd s) : Fits listenFd ms := by
  have hbits := bits p
  rw [hc.watched] at hbits
  refine ⟨hbits listenFd (by simp), fun mv hmv hl => ?_⟩
  by_contra hover
  obtain ⟨_, -, hp, hs⟩ := p.before hmv
  rw [← (configured hp).listens] at hl
  obtain ⟨hstop, hmem⟩ := overrun_of_step hs hl (Int.not_lt.mp hover)
  obtain rfl := last_of_stop p hmv hstop
  exact hover (hbits _ (Finset.mem_union_right _ (List.mem_toFinset.mpr hmem)))

theorem unspoiled_of_fits (hs : step s w = some (s', out))
    (fits : s.listenFd ∈ w.readSet → w.cliFd < fdSetSize) : ∀ fd, Out.overrun fd ∉ out := by
  cases iteration_of_step hs with
  | overrun hl _ past => exact absurd (fits hl) (Int.not_lt.mpr past)
  | greetFailed | reject | accept | idle | disconnect | flood | unicast => simp
  | writeFailed i c pkt ws hi hf hout =>
    intro fd hfd
    obtain ⟨fd', ho⟩ := hout _ (List.mem_of_ne_of_mem (by simp) hfd)
    simp at ho

theorem consistent_of_fits (p : Path (machine numPorts listenFd) ms s h) (hl : 0 ≤ listenFd)
    (hfits : Fits listenFd ms) (hok : ∀ fd, Out.broken fd ∉ h) :
    Consistent numPorts listenFd s := by
  have hboth : Configured numPorts listenFd s ∧
      ((∀ fd, Out.broken fd ∉ h) → Consistent numPorts listenFd s) := by
    refine p.guarded (fun s h => Configured numPorts listenFd s ∧
      ((∀ fd, Out.broken fd ∉ h) → Consistent numPorts listenFd s))
      ⟨configured .nil, fun _ => consistent_init hl hfits.1⟩ ?_ hfits.2
    rintro s h w s' o ⟨hconf, hcons⟩ hs hfit
    refine ⟨configured_step hconf hs, fun hok => ?_⟩
    have hprev := hcons fun fd hfd => hok fd (List.mem_append_left _ hfd)
    exact consistent_step hconf hprev hs (fun fd hfd => hok fd (List.mem_append_right _ hfd))
      (unspoiled_of_fits hs (hconf.listens ▸ hfit))
  exact hboth.2 hok

theorem consistent_iff (p : Path (machine numPorts listenFd) ms s h) (hl : 0 ≤ listenFd) :
    ((∀ fd, Out.broken fd ∉ h) → (Consistent numPorts listenFd s ↔ Fits listenFd ms)) ∧
      ∀ mv ∈ ms, ∀ fd pkt, Out.write fd pkt ∈ mv.out → fd ∈ fds mv.before.clients := by
  constructor
  · exact fun hok => ⟨fits_of_consistent p, fun hfits => consistent_of_fits p hl hfits hok⟩
  · intro mv hmv fd pkt hw
    obtain ⟨_, -, -, hs⟩ := p.before hmv
    exact written_to_client hs hw

def fullRun : List Wake :=
  [.connect 3 4, .carry 4 (frameTo "B" "A"), .connect 3 5, .hangup 4, .connect 3 4]

theorem consistent_iff_full :
    ((∀ fd, Out.broken fd ∉ (machine 1 3).trace fullRun) →
        (Consistent 1 3 ((machine 1 3).final fullRun) ↔
          Fits 3 ((machine 1 3).moves fullRun))) ∧
      ∀ mv ∈ (machine 1 3).moves fullRun, ∀ fd pkt, Out.write fd pkt ∈ mv.out →
        fd ∈ fds mv.before.clients :=
  consistent_iff ((machine 1 3).path fullRun (by decide)) (by decide)

-- the descriptors 4 to 1023 are taken when the first client connects
def crowdedRun : List Wake := [.connect 3 1024]

theorem crowded_bridge_unwatched :
    ¬ ∀ (numPorts : Int) (listenFd : Port) (ms : List (Move State Wake Out)) (s : State)
      (h : List Out), Path (machine numPorts listenFd) ms s h → 0 ≤ listenFd →
        (∀ fd, Out.broken fd ∉ h) → Consistent numPorts listenFd s := by
  intro hall
  have htrace : (machine 1 3).trace crowdedRun = [.overrun 1024] := by decide
  have hc := hall 1 3 _ _ _ ((machine 1 3).path crowdedRun (by decide)) (by decide)
    (by simp [htrace])
  have hset : (1024 : Port) ∉ ((machine 1 3).final crowdedRun).allSet := by decide
  rw [hc.watched] at hset
  exact absurd (by decide) hset

end NetworkEmulator.Bridge
