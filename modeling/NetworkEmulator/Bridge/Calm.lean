import NetworkEmulator.Bridge.Ageing
import NetworkEmulator.Bridge.Consistent

namespace NetworkEmulator.Bridge

open Transition

variable {s s' : State} {w : Wake} {out : List Out} {fd port : Port} {mac : MacAddr}
  {pkt : EtherPkt} {btable : BridgeTable} {stamp since : Milliseconds}

def disturbs : Out → Bool
  | .broken _ | .overrun _ | .disconnect _ => true
  | .accept _ | .reject _ | .read _ _ | .write _ _ => false

def Undisturbed (out : List Out) : Prop := ∀ o ∈ out, disturbs o = false

-- the clock stays within one ageing time of its first reading
def Timely (since : Milliseconds) (w : Wake) : Prop :=
  w.sweep ≤ since + arpTime ∧ since ≤ w.learnSrc

instance (since : Milliseconds) (w : Wake) : Decidable (Timely since w) :=
  inferInstanceAs (Decidable (_ ∧ _))

instance (out : List Out) : Decidable (Undisturbed out) :=
  inferInstanceAs (Decidable (∀ o ∈ out, _))

inductive CalmTurn (s : State) (w : Wake) : State → List Out → Prop
  | accept {s' : State} (fresh : w.cliFd ∉ openFds s)
      (hc : fds s'.clients = fds s.clients ++ [w.cliFd])
      (ht : s'.btable = addPort w.cliFd (swept s w)) : CalmTurn s w s' [.accept w.cliFd]
  | reject {s' : State} (hc : s'.clients = s.clients) (ht : s'.btable = swept s w) :
      CalmTurn s w s' [.reject w.cliFd]
  | idle {s' : State} (hc : s'.clients = s.clients) (ht : s'.btable = swept s w) :
      CalmTurn s w s' []
  | relay {s' : State} {out : List Out} (fd : Port) (pkt : EtherPkt)
      (hr : Relays s w pkt fd s' out) : CalmTurn s w s' out

theorem calmTurn_of_step (hs : step s w = some (s', out)) (hu : Undisturbed out) :
    CalmTurn s w s' out := by
  cases iteration_of_step hs with
  | overrun | greetFailed => cases hu _ List.mem_cons_self
  | accept fresh => exact .accept fresh (fds_snoc _ _) rfl
  | reject => exact .reject (eraseIdx_snoc _ _) rfl
  | idle => exact .idle rfl rfl
  | disconnect i c => cases hu _ List.mem_cons_self
  | flood i c pkt hi hf hm => exact .relay c.fd pkt (.flood i c hi hm)
  | unicast i c pkt nhopFd hi hf hm => exact .relay c.fd pkt (.unicast i c nhopFd hi hm)
  | writeFailed i c pkt ws hi hf hout hbroken =>
    obtain ⟨fd', hfd'⟩ := hbroken
    cases hu _ (List.mem_cons_of_mem _ hfd')

theorem undisturbed_of_relays (hr : Relays s w pkt fd s' out) : Undisturbed out := by
  cases hr with
  | flood => simp [Undisturbed, disturbs]
  | unicast => simp [Undisturbed, disturbs]

theorem stop_of_relays (hr : Relays s w pkt fd s' out) : s'.stop = s.stop := by
  cases hr with
  | flood | unicast => rfl

theorem entry_swept (hw : Timely since w)
    (hsince : ∀ stamp, entry s.btable fd mac = some stamp → since ≤ stamp) :
    entry (swept s w) fd mac = entry s.btable fd mac := by
  cases he : entry s.btable fd mac with
  | none =>
    rw [swept, entry_monitor, he]
    rfl
  | some stamp =>
    have hage : w.sweep ≤ arpTime + stamp :=
      hw.1.trans ((Int.add_comm _ _).trans_le (Int.add_le_add_left (hsince stamp he) _))
    exact entry_monitor_some.mpr ⟨he, Int.sub_right_le_of_le_add hage⟩

theorem entry_learnSource_of (hrow : port ∈ btable)
    (he : entry (learnSource w port pkt btable) fd mac = some stamp) :
    entry btable fd mac = some stamp ∨ (fd = port ∧ mac = pkt.macSrc) ∧ stamp = w.learnSrc := by
  unfold learnSource at he
  split_ifs at he with hnone
  · rw [entry_addArpEntry _ hrow] at he
    split_ifs at he with hnew
    · have hno : entry btable port pkt.macSrc = none := by
        rw [hasArpEntryOn_eq, ite_eq_right_iff] at hnone
        by_contra hsome
        exact absurd (hnone (Option.isSome_iff_ne_none.mpr hsome)) (by simp)
      rw [hno, Option.getD_none] at he
      exact Or.inr ⟨hnew, (Option.some.inj he).symm⟩
    · exact Or.inl he
  · exact Or.inl he

section Serving
variable {numPorts : Int} {listenFd : Port} {ms : List (Move State Wake Out)} {h : List Out}

theorem undisturbed_of_running (hs : step s w = some (s', out)) (hrun : s'.stop = false) :
    ∀ fd, .broken fd ∉ out ∧ .overrun fd ∉ out := by
  cases iteration_of_step hs with
  | overrun | greetFailed | writeFailed => cases hrun
  | reject | accept | idle | disconnect | flood | unicast => simp

theorem consistent_running (p : Path (machine numPorts listenFd) ms s h) (hl : 0 ≤ listenFd)
    (hrun : s.stop = false) : Consistent numPorts listenFd s := by
  have hboth : Configured numPorts listenFd s ∧
      (s.stop = false → Consistent numPorts listenFd s) := by
    refine p.invariant
      (fun s _ => Configured numPorts listenFd s ∧
        (s.stop = false → Consistent numPorts listenFd s)) ⟨configured .nil, fun hrun => ?_⟩ ?_
    · exact consistent_init hl (Int.not_le.mp (of_decide_eq_false hrun))
    · rintro s h w s' o ⟨hconf, hcons⟩ hs
      refine ⟨configured_step hconf hs, fun hrun => ?_⟩
      have hundisturbed := undisturbed_of_running hs hrun
      exact consistent_step hconf (hcons (running_of_step hs)) hs
        (fun fd => (hundisturbed fd).1) fun fd => (hundisturbed fd).2
  exact hboth.2 hrun

theorem firstReady_self {clients : List ClientData} (hfd : fd ∈ fds clients) :
    ∃ i c, firstReady {fd} clients = some (i, c) ∧ c.fd = fd := by
  induction clients with
  | nil => cases hfd
  | cons c clients ih =>
    by_cases hc : c.fd = fd
    · exact ⟨0, c, if_pos (Finset.mem_singleton.mpr hc), hc⟩
    · obtain ⟨i, c', hr, hc'⟩ := ih ((List.mem_cons.mp hfd).resolve_left (Ne.symm hc))
      refine ⟨i + 1, c', ?_, hc'⟩
      rw [firstReady, if_neg (mt Finset.mem_singleton.mp hc), hr]
      rfl

def Wake.serve (since : Milliseconds) (fd : Port) (pkt : EtherPkt) : Wake :=
  { Wake.carry fd pkt with sweep := since, learnDst := since, learnSrc := since }

theorem timely_serve : Timely since (.serve since fd pkt) :=
  ⟨Int.le_add_of_nonneg_right (by decide), Int.le_refl since⟩

theorem relays_handleFrame {i : Nat} {c : ClientData} (hi : s.clients[i]? = some c)
    (hwrote : ∀ fd, w.wrote fd = true) :
    Relays s w pkt c.fd (handleFrame (afterSweep s w) w i c.fd pkt).1
      (handleFrame (afterSweep s w) w i c.fd pkt).2 := by
  unfold handleFrame
  simp only [afterSweep_btable, afterSweep_clients]
  cases hm : hasArpEntry (swept s w) s.clients pkt.macDst with
  | none =>
    have hall : ((s.clients.eraseIdx i).map ClientData.fd).all w.wrote = true :=
      List.all_eq_true.mpr fun fd _ => hwrote fd
    simp only [hall, if_true, writeAll_all pkt hall]
    exact .flood i c hi hm
  | some nhopFd =>
    simp only [hwrote, if_true, writeAll]
    exact .unicast i c nhopFd hi hm

theorem step_serve (p : Path (machine numPorts listenFd) ms s h) (hl : 0 ≤ listenFd)
    (hrun : s.stop = false) (hfd : fd ∈ fds s.clients) (since : Milliseconds) (pkt : EtherPkt) :
    s.listenFd ∉ (Wake.serve since fd pkt).readSet ∧
      ∃ s' out, step s (.serve since fd pkt) = some (s', out) ∧
        Relays s (.serve since fd pkt) pkt fd s' out := by
  have hconf := configured p
  have hcons := consistent_running p hl hrun
  obtain ⟨hzero, hlisten⟩ := hconf.reserved fd hfd
  have hset : fd ∈ s.allSet := by
    rw [hcons.watched]
    exact Finset.mem_union_right _ (List.mem_toFinset.mpr hfd)
  have hquiet : s.listenFd ∉ (Wake.serve since fd pkt).readSet :=
    fun hmem => hlisten ((Finset.mem_singleton.mp hmem).symm.trans hconf.listens)
  have hanswers : Answers s (.serve since fd pkt) := by
    refine ⟨Finset.singleton_subset_iff.mpr hset, fun fd' hfd' => ?_, fun hmem => absurd hmem hquiet⟩
    rw [Finset.mem_singleton.mp hfd']
    exact hcons.highest fd hset
  obtain ⟨i, c, hready, rfl⟩ := firstReady_self hfd
  have hconsole : (0 : Port) ∉ (Wake.serve since c.fd pkt).readSet :=
    fun hmem => hzero (Finset.mem_singleton.mp hmem).symm
  have hdispatch : dispatch (afterSweep s (.serve since c.fd pkt)) (.serve since c.fd pkt) =
      handleFrame (afterSweep s (.serve since c.fd pkt)) (.serve since c.fd pkt) i c.fd pkt := by
    have hquiet' : (afterSweep s (.serve since c.fd pkt)).listenFd ∉
        (Wake.serve since c.fd pkt).readSet := hquiet
    have hready' : firstReady (Wake.serve since c.fd pkt).readSet
        (afterSweep s (.serve since c.fd pkt)).clients = some (i, c) := hready
    rw [dispatch, if_neg hquiet', if_neg hconsole, serveClient, hready']
    rfl
  refine ⟨hquiet, _, _, (if_neg ?_).trans (congrArg some hdispatch),
    relays_handleFrame (firstReady_some hready).1 fun _ => rfl⟩
  exact not_or.mpr ⟨by simp [hrun], not_not_intro hanswers⟩

end Serving

end NetworkEmulator.Bridge
