import NetworkEmulator.Station.Forwarding
import NetworkEmulator.Station.Received

namespace NetworkEmulator.Station

open Transition

variable {cfg : Config} {ms ms' : List (Move State Event Out)} {s s' : State} {st st' : Store}
  {h out : List Out} {i : IfaceSocketPair} {recv : EtherPkt} {ip : IPAddr} {c : CacheContent}

-- the code takes every op other than 0 for a response
def Vouches (cfg : Config) (st : Store) (recv : EtherPkt) : Prop :=
  recv.type = 0 ∧ isIntendedIpDestination cfg recv.arpPkt.dstIp = true ∧
    (recv.arpPkt.op = 0 ∨ ∃ pp ∈ st.pq, pp.nextHopIpaddr = recv.arpPkt.srcIp)

structure Introduces (cfg : Config) (mv : Move State Event Out) (recv : EtherPkt) (ip : IPAddr)
    (c : CacheContent) : Prop where
  handled : ∃ i, .handle i recv ∈ mv.out
  address : recv.arpPkt.srcIp = ip ∧ recv.arpPkt.srcMac = c.mac
  vouches : Vouches cfg mv.before.store recv
  absent : AList.lookup ip mv.before.store.arp = none
  present : AList.lookup ip mv.after.store.arp = some c

theorem ignored_iff_not_vouches (ht : recv.type = 0) :
    Ignored cfg st recv ↔ ¬ Vouches cfg st recv := by
  simp only [Ignored, Vouches, ht, if_true, true_and]
  constructor
  · rintro (hd | ⟨ho, hno⟩) ⟨hd', ho' | ⟨pp, hpp, hkey⟩⟩
    · exact absurd hd' (by simp [hd])
    · exact absurd hd' (by simp [hd])
    · exact ho ho'
    · exact hno pp hpp hkey
  · intro hno
    cases hd : isIntendedIpDestination cfg recv.arpPkt.dstIp with
    | false => exact Or.inl rfl
    | true =>
      refine Or.inr ⟨fun ho => hno ⟨hd, Or.inl ho⟩, fun pp hpp hkey => ?_⟩
      exact hno ⟨hd, Or.inr ⟨pp, hpp, hkey⟩⟩

theorem lookup_learn {now : Milliseconds} {arpPkt : ArpPkt}
    (hl : AList.lookup ip (st.learn now arpPkt).arp = some c) :
    AList.lookup ip st.arp = some c ∨
      AList.lookup ip st.arp = none ∧ arpPkt.srcIp = ip ∧ c = ⟨arpPkt.srcMac, now⟩ := by
  simp only [Store.learn, ArpCache.addMapping] at hl
  by_cases he : ip = arpPkt.srcIp
  · subst he
    rw [Table.lookup_insertNew_self] at hl
    cases hold : AList.lookup arpPkt.srcIp st.arp with
    | none => exact Or.inr ⟨rfl, rfl, by simpa [hold] using hl.symm⟩
    | some c' => exact Or.inl (by simpa [hold] using hl)
  · rw [Table.lookup_insertNew_ne he] at hl
    exact Or.inl hl

theorem arp_sends {srcIp dstIp : IPAddr} {data : String}
    (hs : Sends cfg st srcIp dstIp data st' out) : st'.arp = st.arp := by
  cases hs with
  | cached | queued => rfl

theorem arp_commands (hc : Commands cfg st st' out) : st'.arp = st.arp := by
  cases hc with
  | other => rfl
  | send line dst data hr hs => exact arp_sends hs

theorem lookup_monitorCache {now : Milliseconds}
    (hl : AList.lookup ip (st.arp.monitorCache now) = some c) :
    AList.lookup ip st.arp = some c ∧ now - c.time < ArpCache.maxTime := by
  rw [ArpCache.monitorCache, Table.lookup_sweep, Option.filter_eq_some_iff] at hl
  refine ⟨hl.1, ?_⟩
  simpa using hl.2

theorem arp_handles (hs : Handles cfg st i recv st' out)
    (hl : AList.lookup ip st'.arp = some c) :
    AList.lookup ip st.arp = some c ∨
      AList.lookup ip st.arp = none ∧ (recv.arpPkt.srcIp = ip ∧ recv.arpPkt.srcMac = c.mac) ∧
        Vouches cfg st recv := by
  cases hs with
  | ignored | deliver => exact Or.inl hl
  | forward _ _ _ hs => exact Or.inl (arp_sends hs ▸ hl)
  | request now u ht ho hd =>
    rcases lookup_learn hl with hold | ⟨hnone, he, rfl⟩
    · exact Or.inl hold
    · exact Or.inr ⟨hnone, ⟨he, rfl⟩, ht, hd, Or.inl ho⟩
  | flush now u k pp o ht ho hd hp =>
    obtain ⟨hget, hkey, -⟩ := firstPending_some hp
    rcases lookup_learn hl with hold | ⟨hnone, he, rfl⟩
    · exact Or.inl hold
    · exact Or.inr ⟨hnone, ⟨he, rfl⟩, ht, hd, Or.inr ⟨pp, List.mem_of_getElem? hget, hkey⟩⟩

theorem arp_effect (he : Effect cfg st st' out) (hl : AList.lookup ip st'.arp = some c) :
    AList.lookup ip st.arp = some c ∨
      AList.lookup ip st.arp = none ∧ ∃ i recv, .handle i recv ∈ out ∧
        (recv.arpPkt.srcIp = ip ∧ recv.arpPkt.srcMac = c.mac) ∧ Vouches cfg st recv := by
  cases he with
  | quiet => exact Or.inl hl
  | sweep now => exact Or.inl (lookup_monitorCache hl).1
  | console hc => exact Or.inl (arp_commands hc ▸ hl)
  | handle i recv hs =>
    rcases arp_handles hs hl with hold | ⟨hnone, haddress, hvouches⟩
    · exact Or.inl hold
    · exact Or.inr ⟨hnone, i, recv, List.mem_cons_self, haddress, hvouches⟩

theorem introduced (p : Path (machine cfg) ms s h) (hl : AList.lookup ip s.store.arp = some c) :
    ∃ mv ∈ ms, ∃ recv, Introduces cfg mv recv ip c := by
  induction p with
  | nil => simp [machine] at hl
  | @snoc ms s s' h o e p hs ih =>
    rcases arp_effect (effect_of_step hs) hl with hold | ⟨hnone, i, recv, hh, haddress, hvouches⟩
    · obtain ⟨mv, hmv, hi⟩ := ih hold
      exact ⟨mv, List.mem_append_left _ hmv, hi⟩
    · exact ⟨⟨s, h, e, s', o⟩, by simp, recv, ⟨i, hh⟩, haddress, hvouches, hnone, hl⟩

theorem not_vouches_uninit (hne : ∀ i ∈ cfg.ifaces, i.1.ipAddr ≠ "") (u : Uninit) :
    ¬ Vouches cfg st (EtherPkt.uninit u "") := by
  rintro ⟨-, hd, -⟩
  obtain ⟨i, hi, he⟩ := isIntended_iff.mp hd
  exact hne i hi he.symm

theorem store_of_handles (hs : Handles cfg st i recv st' out) (ht : recv.type = 0)
    (hno : ¬ Vouches cfg st recv) : st' = st ∧ out = [] := by
  have hnil := hs.out_eq_nil_iff.mpr ((ignored_iff_not_vouches ht).mpr hno)
  exact ⟨hs.store_of_nil hnil, hnil⟩

-- load_interfaces reads no empty address; only there can an unwritten buffer pass for a packet
theorem mappings_vouched (p : Path (machine cfg) ms s h) :
    (∀ ip c, AList.lookup ip s.store.arp = some c → ∃ mv ∈ ms, ∃ recv, Introduces cfg mv recv ip c ∧
        ((∀ i ∈ cfg.ifaces, i.1.ipAddr ≠ "") → Arrived ms recv)) ∧
      ∀ mv ∈ ms, ∀ i recv, .handle i recv ∈ mv.out → recv.type = 0 →
        ¬ Vouches cfg mv.before.store recv →
        mv.after.store = mv.before.store ∧ ∀ o ∈ mv.out, o.frame = none := by
  constructor
  · intro ip c hl
    obtain ⟨mv, hmv, recv, hi⟩ := introduced p hl
    refine ⟨mv, hmv, recv, hi, fun hne => ?_⟩
    obtain ⟨i, hh⟩ := hi.handled
    rcases handled_arrived p hmv hh with harrived | ⟨u, rfl⟩
    · exact harrived
    · exact absurd hi.vouches (not_vouches_uninit hne u)
  · intro mv hmv i recv hh ht hno
    obtain ⟨_, -, -, hs⟩ := p.before hmv
    obtain ⟨ws, hout, hhandles⟩ := handle_effect (effect_of_step hs) hh
    obtain ⟨hstore, rfl⟩ := store_of_handles hhandles ht hno
    refine ⟨hstore, fun o ho => ?_⟩
    rw [hout] at ho
    rw [List.mem_singleton.mp ho]
    rfl

def forgedRun : List Event := heard responseFromB ++ typed "send B x" ++ heard responseFromB

theorem mappings_vouched_forged :
    (∀ ip c, AList.lookup ip ((machine hostA).final forgedRun).store.arp = some c →
        ∃ mv ∈ (machine hostA).moves forgedRun, ∃ recv, Introduces hostA mv recv ip c ∧
          ((∀ i ∈ hostA.ifaces, i.1.ipAddr ≠ "") → Arrived ((machine hostA).moves forgedRun) recv)) ∧
      ∀ mv ∈ (machine hostA).moves forgedRun, ∀ i recv, .handle i recv ∈ mv.out → recv.type = 0 →
        ¬ Vouches hostA mv.before.store recv →
        mv.after.store = mv.before.store ∧ ∀ o ∈ mv.out, o.frame = none :=
  mappings_vouched ((machine hostA).path forgedRun (by decide))

end NetworkEmulator.Station
