import NetworkEmulator.Station.Provenance

namespace NetworkEmulator.Station

open Transition

variable {cfg : Config} {ms : List (Move State Event Out)} {s s' : State} {st st' : Store}
  {h out : List Out} {i : IfaceSocketPair} {recv : EtherPkt} {ip : IPAddr} {c : CacheContent}
  {e : Event} {now : Milliseconds} {u : Uninit}

def Event.reads : Event → Option Milliseconds
  | .sweep now | .recv _ now _ => some now
  | .stdin _ _ | .frames _ | .skip => none

def Event.IsSweep (e : Event) : Prop := ∃ now, e = .sweep now

abbrev Timed := Move State Event Out × Milliseconds

structure Clocked (ts : List Timed) : Prop where
  forward : ts.Pairwise fun t₁ t₂ => t₁.2 ≤ t₂.2
  reads : ∀ t ∈ ts, ∀ now, t.1.event.reads = some now → now = t.2

def SendsFresh (ts : List Timed) : Prop :=
  ∀ t ∈ ts, ∀ pp fd pkt, .send pp true fd pkt ∈ t.1.out →
    ∃ c, AList.lookup pp.nextHopIpaddr t.1.before.store.arp = some c ∧ c.mac = pkt.macDst ∧
      t.2 - c.time < ArpCache.maxTime

-- the ARP packet that puts ip into arp_: a request to the station, or a response it waits for
def Enters (cfg : Config) (mv : Move State Event Out) (ip : IPAddr) : Prop :=
  AList.lookup ip mv.before.store.arp = none ∧ ∃ i recv, .handle i recv ∈ mv.out ∧
    recv.arpPkt.srcIp = ip ∧ Vouches cfg mv.before.store recv

def Prompt (cfg : Config) (ts : List Timed) : Prop :=
  ∀ ts₁ sw gap t ts₂, ts = ts₁ ++ sw :: (gap ++ t :: ts₂) → sw.1.event.IsSweep →
    (∀ g ∈ gap, ¬ g.1.event.IsSweep) → ∀ pp fd pkt, .send pp true fd pkt ∈ t.1.out →
    ∀ g ∈ ts₁ ++ sw :: gap, Enters cfg g.1 pp.nextHopIpaddr →
      sw.2 - g.2 ≥ ArpCache.maxTime ∨ t.2 - g.2 < ArpCache.maxTime

theorem lookup_learn_of_some {arpPkt : ArpPkt} (hl : AList.lookup ip st.arp = some c) :
    AList.lookup ip (st.learn now arpPkt).arp = some c := by
  simp only [Store.learn, ArpCache.addMapping]
  by_cases he : ip = arpPkt.srcIp
  · subst he
    rw [Table.lookup_insertNew_self, hl]
    rfl
  · rw [Table.lookup_insertNew_ne he, hl]

theorem handleResponse_arp {fd : Port}
    (h : handleResponse cfg st fd now u recv = .ok (st', out)) :
    st'.arp = st.arp ∨ st'.arp = (st.learn now recv.arpPkt).arp := by
  unfold handleResponse at h
  split at h
  · split at h
    · obtain ⟨rfl, -⟩ := Prod.mk.inj (Except.ok.inj h)
      exact Or.inl rfl
    · split at h
      · cases h
      · obtain ⟨rfl, -⟩ := Prod.mk.inj (Except.ok.inj h)
        exact Or.inr rfl
  · obtain ⟨rfl, -⟩ := Prod.mk.inj (Except.ok.inj h)
    exact Or.inl rfl

theorem handleIp_arp (h : handleIp cfg st u recv = .ok (st', out)) : st'.arp = st.arp := by
  unfold handleIp at h
  split at h
  · obtain ⟨rfl, -⟩ := Prod.mk.inj (Except.ok.inj h)
    rfl
  · split at h
    · exact arp_sends (sends_of_sendEtherPkt h)
    · obtain ⟨rfl, -⟩ := Prod.mk.inj (Except.ok.inj h)
      rfl

theorem handlePkt_arp (h : handlePkt cfg st i now u recv = .ok (st', out)) :
    st'.arp = st.arp ∨ st'.arp = (st.learn now recv.arpPkt).arp := by
  unfold handlePkt at h
  split at h
  · split at h
    · rw [handleRequest_eq] at h
      obtain ⟨rfl, -⟩ := Prod.mk.inj (Except.ok.inj h)
      split_ifs
      · exact Or.inr rfl
      · exact Or.inl rfl
    · exact handleResponse_arp h
  · exact Or.inl (handleIp_arp h)

theorem settle_arp {pc : Pc} :
    (settle s pc [.handle i recv] (handlePkt cfg s.store i now u recv)).1.store.arp =
        s.store.arp ∨
      (settle s pc [.handle i recv] (handlePkt cfg s.store i now u recv)).1.store.arp =
        (s.store.learn now recv.arpPkt).arp := by
  cases hr : handlePkt cfg s.store i now u recv with
  | error f => exact Or.inl rfl
  | ok r => exact handlePkt_arp hr

theorem arp_of_step (hs : step cfg s e = some (s', out)) (hne : ¬ e.IsSweep) :
    s'.store.arp = s.store.arp ∨
      ∃ now arpPkt, e.reads = some now ∧ s'.store.arp = (s.store.learn now arpPkt).arp := by
  cases turn_of_step hs with
  | sweep now => exact absurd ⟨now, rfl⟩ hne
  | frames | skip => exact Or.inl rfl
  | stdin bytes u _ hr =>
    left
    rcases (readStdin_some hr).1 with ⟨hst, -⟩ | hc
    · rw [hst]
    · exact arp_commands hc
  | recv i rest buffer r now u =>
    cases r with
    | eof => exact Or.inl rfl
    | error => exact settle_arp.imp id fun hl => ⟨now, _, rfl, hl⟩
    | frame pkt => exact settle_arp.imp id fun hl => ⟨now, _, rfl, hl⟩

theorem lookup_of_step (hs : step cfg s e = some (s', out)) (hne : ¬ e.IsSweep)
    (hl : AList.lookup ip s.store.arp = some c) : AList.lookup ip s'.store.arp = some c := by
  rcases arp_of_step hs hne with he | ⟨now, arpPkt, -, he⟩
  · rw [he, hl]
  · rw [he, lookup_learn_of_some hl]

theorem time_of_step (hs : step cfg s e = some (s', out)) (hne : ¬ e.IsSweep)
    (hnone : AList.lookup ip s.store.arp = none) (hl : AList.lookup ip s'.store.arp = some c) :
    e.reads = some c.time := by
  rcases arp_of_step hs hne with he | ⟨now, arpPkt, hnow, he⟩
  · exact absurd (hnone.symm.trans (he ▸ hl)) (by simp)
  · rw [he] at hl
    rcases lookup_learn hl with hold | ⟨-, -, rfl⟩
    · exact absurd (hnone.symm.trans hold) (by simp)
    · exact hnow

theorem lookup_of_cached {pp : PendingPkt} {fd : Port} {pkt : EtherPkt} {srcIp dstIp : IPAddr}
    {data : String} (hs : Sends cfg st srcIp dstIp data st' out)
    (hsend : .send pp true fd pkt ∈ out) :
    ∃ c, AList.lookup pp.nextHopIpaddr st.arp = some c ∧ c.mac = pkt.macDst := by
  cases hs with
  | queued => simp at hsend
  | cached u hop hr hm =>
    obtain ⟨rfl, -, -, rfl⟩ := Out.send.inj (List.mem_singleton.mp hsend)
    obtain ⟨c, hc⟩ := Option.isSome_iff_exists.mp hm
    refine ⟨c, hc, ?_⟩
    simp [Hop.ipFrame, ArpCache.getMacFor, hc]

theorem mapping_of_send {pp : PendingPkt} {fd : Port} {pkt : EtherPkt}
    (he : Effect cfg st st' out) (hsend : .send pp true fd pkt ∈ out) :
    ∃ c, AList.lookup pp.nextHopIpaddr st.arp = some c ∧ c.mac = pkt.macDst := by
  cases he with
  | quiet | sweep => simp at hsend
  | console hc =>
    cases hc with
    | other => simp at hsend
    | send line dst data hr hs =>
      exact lookup_of_cached hs (List.mem_of_ne_of_mem (by simp) hsend)
  | handle i recv hs =>
    have hsend := List.mem_of_ne_of_mem (by simp) hsend
    cases hs with
    | ignored | request | flush | deliver => simp at hsend
    | forward _ _ _ hs => exact lookup_of_cached hs hsend

theorem sweep_of_top (hs : step cfg s e = some (s', out)) (hpc : s.pc = .top) :
    e.IsSweep ∧ out = [] := by
  cases turn_of_step hs with
  | sweep now => exact ⟨⟨now, rfl⟩, rfl⟩
  | stdin _ _ hpc' | frames _ hpc' => exact absurd (hpc.symm.trans hpc') (by simp)
  | skip _ _ _ hpc' | recv _ _ _ _ _ _ hpc' => exact absurd (hpc.symm.trans hpc') (by simp)

theorem swept_of_running (p : Path (machine cfg) ms s h) (hpc : s.pc ≠ .top) :
    ∃ mv ∈ ms, mv.event.IsSweep := by
  induction p with
  | nil => exact absurd rfl hpc
  | @snoc ms s s' h o e p hs ih =>
    by_cases htop : s.pc = .top
    · exact ⟨⟨s, h, e, s', o⟩, by simp, (sweep_of_top hs htop).1⟩
    · obtain ⟨mv, hmv, hsw⟩ := ih htop
      exact ⟨mv, List.mem_append_left _ hmv, hsw⟩

theorem lookup_survives (hs : step cfg s e = some (s', out))
    (hage : ∀ now, e = .sweep now → now - c.time < ArpCache.maxTime)
    (hl : AList.lookup ip s.store.arp = some c) : AList.lookup ip s'.store.arp = some c := by
  by_cases hsw : e.IsSweep
  · obtain ⟨now, rfl⟩ := hsw
    cases turn_of_step hs with
    | sweep =>
      change AList.lookup ip (s.store.arp.monitorCache now) = some c
      rw [ArpCache.monitorCache, Table.lookup_sweep, Option.filter_eq_some_iff]
      exact ⟨hl, by simpa using hage now rfl⟩
  · exact lookup_of_step hs hsw hl

theorem lookup_kept {ms₁ gap : List (Move State Event Out)} {mv : Move State Event Out}
    (p : Path (machine cfg) (ms₁ ++ mv :: gap) s h)
    (hgap : ∀ mv' ∈ gap, ∀ now, mv'.event = .sweep now → now - c.time < ArpCache.maxTime)
    (hl : AList.lookup ip mv.after.store.arp = some c) : AList.lookup ip s.store.arp = some c :=
  p.along (fun s => AList.lookup ip s.store.arp = some c)
    (fun hl hs hage => lookup_survives hs hage hl) hl hgap

theorem learned_since {ms₁ gap : List (Move State Event Out)} {mv : Move State Event Out}
    (p : Path (machine cfg) (ms₁ ++ mv :: gap) s h) (hgap : ∀ mv' ∈ gap, ¬ mv'.event.IsSweep)
    (hnone : AList.lookup ip mv.after.store.arp = none)
    (hl : AList.lookup ip s.store.arp = some c) : ∃ mv' ∈ gap, mv'.event.reads = some c.time := by
  refine p.along (P := fun mv' => mv' ∈ gap)
    (fun s => ∀ c, AList.lookup ip s.store.arp = some c →
      ∃ mv' ∈ gap, mv'.event.reads = some c.time)
    ?_ ?_ (fun _ hmv' => hmv') c hl
  · intro m ih hs hm c hl
    cases hold : AList.lookup ip m.before.store.arp with
    | none => exact ⟨m, hm, time_of_step hs (hgap m hm) hold hl⟩
    | some c' =>
      obtain rfl := Option.some.inj ((lookup_of_step hs (hgap m hm) hold).symm.trans hl)
      exact ih c' hold
  · intro c hl
    exact absurd (hnone.symm.trans hl) (by simp)

theorem learns_of_vouches (hs : Handles cfg st i recv st' out) (hv : Vouches cfg st recv) :
    ∃ now, st'.arp = (st.learn now recv.arpPkt).arp := by
  cases hs with
  | ignored hno => exact absurd hv ((ignored_iff_not_vouches hv.1).mp hno)
  | request now | flush now => exact ⟨now, rfl⟩
  | deliver ht => exact absurd hv.1 ht
  | forward ht => exact absurd hv.1 ht

theorem not_sweep_of_handle (hs : step cfg s e = some (s', out)) (hh : .handle i recv ∈ out) :
    ¬ e.IsSweep := by
  rintro ⟨now, rfl⟩
  cases turn_of_step hs with
  | sweep => cases hh

theorem lookup_of_enters {mv : Move State Event Out}
    (hs : step cfg mv.before mv.event = some (mv.after, mv.out)) (he : Enters cfg mv ip) :
    ∃ c, AList.lookup ip mv.after.store.arp = some c ∧ mv.event.reads = some c.time := by
  obtain ⟨hnone, i, recv, hh, rfl, hv⟩ := he
  obtain ⟨ws, -, hhandles⟩ := handle_effect (effect_of_step hs) hh
  obtain ⟨now, harp⟩ := learns_of_vouches hhandles hv
  have hl : AList.lookup recv.arpPkt.srcIp mv.after.store.arp =
      some ⟨recv.arpPkt.srcMac, now⟩ := by
    rw [harp, Store.learn, ArpCache.addMapping, Table.lookup_insertNew_self, hnone]
    rfl
  exact ⟨_, hl, time_of_step hs (not_sweep_of_handle hs hh) hnone hl⟩

theorem entered (p : Path (machine cfg) ms s h) (hl : AList.lookup ip s.store.arp = some c) :
    ∃ mv ∈ ms, Enters cfg mv ip ∧ mv.event.reads = some c.time := by
  obtain ⟨mv, hmv, recv, hi⟩ := introduced p hl
  obtain ⟨_, -, -, hs⟩ := p.before hmv
  obtain ⟨i, hh⟩ := hi.handled
  have htime := time_of_step hs (not_sweep_of_handle hs hh) hi.absent hi.present
  exact ⟨mv, hmv, ⟨hi.absent, i, recv, hh, hi.address.1, hi.vouches⟩, htime⟩

theorem pc_of_send {pp : PendingPkt} {hit : Bool} {fd : Port} {pkt : EtherPkt}
    (hs : step cfg s e = some (s', out)) (hsend : .send pp hit fd pkt ∈ out) : s.pc ≠ .top := by
  intro hpc
  have hnil := (sweep_of_top hs hpc).2
  simp [hnil] at hsend

section Timed
variable {ts ts₁ gap ts₂ : List Timed} {sw g t : Timed}

theorem at_timed (p : Path (machine cfg) ((ts₁ ++ t :: ts₂).map Prod.fst) s h) :
    Path (machine cfg) (ts₁.map Prod.fst) t.1.before t.1.log ∧
      step cfg t.1.before t.1.event = some (t.1.after, t.1.out) := by
  rw [List.map_append, List.map_cons] at p
  exact p.at_move

theorem since_sweep (p : Path (machine cfg) ((ts₁ ++ sw :: (gap ++ t :: ts₂)).map Prod.fst) s h) :
    Path (machine cfg) (ts₁.map Prod.fst ++ sw.1 :: gap.map Prod.fst) t.1.before t.1.log := by
  rw [← List.cons_append, ← List.append_assoc] at p
  simpa using (at_timed p).1

theorem mapping_at (p : Path (machine cfg) (ts.map Prod.fst) s h) (ht : t ∈ ts)
    {pp : PendingPkt} {fd : Port} {pkt : EtherPkt} (hsend : .send pp true fd pkt ∈ t.1.out) :
    ∃ c, AList.lookup pp.nextHopIpaddr t.1.before.store.arp = some c ∧ c.mac = pkt.macDst := by
  obtain ⟨_, -, -, hs⟩ := p.before (List.mem_map_of_mem ht)
  exact mapping_of_send (effect_of_step hs) hsend

theorem last_sweep (p : Path (machine cfg) (ts.map Prod.fst) s h) (ht : t ∈ ts)
    {pp : PendingPkt} {hit : Bool} {fd : Port} {pkt : EtherPkt}
    (hsend : .send pp hit fd pkt ∈ t.1.out) :
    ∃ ts₁ sw gap ts₂, ts = ts₁ ++ sw :: (gap ++ t :: ts₂) ∧ sw.1.event.IsSweep ∧
      ∀ g ∈ gap, ¬ g.1.event.IsSweep := by
  obtain ⟨before, ts₂, rfl⟩ := List.append_of_mem ht
  obtain ⟨hp, hs⟩ := at_timed p
  obtain ⟨mv, hmv, hsw⟩ := swept_of_running hp (pc_of_send hs hsend)
  obtain ⟨sw, hmem, rfl⟩ := List.mem_map.mp hmv
  obtain ⟨ts₁, sw, gap, rfl, hsw, hgap⟩ :=
    exists_last (P := fun t : Timed => t.1.event.IsSweep) ⟨sw, hmem, hsw⟩
  exact ⟨ts₁, sw, gap, ts₂, by simp, hsw, hgap⟩

theorem sweep_le (hclock : Clocked (ts₁ ++ sw :: (gap ++ t :: ts₂)))
    (hgap : ∀ g ∈ gap, ¬ g.1.event.IsSweep) (hg : g ∈ ts₁ ++ sw :: gap)
    (hsw : g.1.event.IsSweep) : g.2 ≤ sw.2 := by
  obtain ⟨-, -, hle⟩ := List.pairwise_append.mp hclock.forward
  rcases List.mem_append.mp hg with hg | hg
  · exact hle g hg sw List.mem_cons_self
  · rcases List.mem_cons.mp hg with rfl | hg
    · exact Int.le_refl _
    · exact absurd hsw (hgap g hg)

theorem gap_le (hclock : Clocked (ts₁ ++ sw :: (gap ++ t :: ts₂))) (hg : g ∈ gap) :
    sw.2 ≤ g.2 := by
  obtain ⟨-, hback, -⟩ := List.pairwise_append.mp hclock.forward
  exact (List.pairwise_cons.mp hback).1 g (List.mem_append_left _ hg)

theorem survived (p : Path (machine cfg) ((ts₁ ++ sw :: (gap ++ t :: ts₂)).map Prod.fst) s h)
    (hclock : Clocked (ts₁ ++ sw :: (gap ++ t :: ts₂))) (hsw : sw.1.event.IsSweep)
    (hgap : ∀ g ∈ gap, ¬ g.1.event.IsSweep)
    (hl : AList.lookup ip t.1.before.store.arp = some c) : sw.2 - c.time < ArpCache.maxTime := by
  have hsince := since_sweep p
  have hgap' : ∀ mv ∈ gap.map Prod.fst, ¬ mv.event.IsSweep := List.forall_mem_map.mpr hgap
  cases hat : AList.lookup ip sw.1.after.store.arp with
  | some c' =>
    have hkept := lookup_kept hsince (fun mv hmv now he => absurd ⟨now, he⟩ (hgap' mv hmv)) hat
    obtain rfl := Option.some.inj (hkept.symm.trans hl)
    obtain ⟨now, hnow⟩ := hsw
    have hstep := (at_timed p).2
    rw [hnow] at hstep
    have harp : sw.1.after.store.arp = sw.1.before.store.arp.monitorCache now := by
      generalize sw.1.after = after, sw.1.out = out at hstep
      cases turn_of_step hstep with
      | sweep => rfl
    have hread := hclock.reads sw (by simp) now (by rw [hnow]; rfl)
    exact hread ▸ (lookup_monitorCache (harp ▸ hat)).2
  | none =>
    obtain ⟨mv, hmv, hreads⟩ := learned_since hsince hgap' hat hl
    obtain ⟨g, hg, rfl⟩ := List.mem_map.mp hmv
    have htime := hclock.reads g (by simp [hg]) _ hreads
    have hle : sw.2 ≤ c.time := htime ▸ gap_le hclock hg
    exact Int.lt_of_le_of_lt (Int.sub_nonpos_of_le hle) (by decide)

theorem prompt_of_fresh (p : Path (machine cfg) (ts.map Prod.fst) s h) (hclock : Clocked ts)
    (hfresh : SendsFresh ts) : Prompt cfg ts := by
  rintro ts₁ sw gap t ts₂ rfl hsw hgap pp fd pkt hsend g hg henters
  by_cases hseen : sw.2 - g.2 ≥ ArpCache.maxTime
  · exact Or.inl hseen
  · right
    obtain ⟨xs, ys, hsplit⟩ := List.append_of_mem hg
    have hall : ts₁ ++ sw :: (gap ++ t :: ts₂) = xs ++ g :: (ys ++ t :: ts₂) := by
      rw [← List.cons_append, ← List.append_assoc, hsplit, List.append_assoc, List.cons_append]
    have hp := p
    rw [hall] at hp
    obtain ⟨c, hl, hreads⟩ := lookup_of_enters (at_timed hp).2 henters
    have htime := hclock.reads g (hall ▸ by simp) _ hreads
    have hkept : AList.lookup pp.nextHopIpaddr t.1.before.store.arp = some c := by
      refine lookup_kept (since_sweep hp) (List.forall_mem_map.mpr ?_) hl
      intro y hy now hnow
      have hmem : y ∈ ts₁ ++ sw :: gap := hsplit ▸ by simp [hy]
      have hread := hclock.reads y (hall ▸ by simp [hy]) now (by rw [hnow]; rfl)
      have hle := sweep_le hclock hgap hmem ⟨now, hnow⟩
      rw [hread, htime]
      exact Int.lt_of_le_of_lt (Int.sub_le_sub_right hle g.2) (Int.not_le.mp hseen)
    obtain ⟨c', hc', -, hage⟩ := hfresh t (by simp) pp fd pkt hsend
    obtain rfl := Option.some.inj (hkept.symm.trans hc')
    exact htime ▸ hage

theorem fresh_of_prompt (p : Path (machine cfg) (ts.map Prod.fst) s h) (hclock : Clocked ts)
    (hprompt : Prompt cfg ts) : SendsFresh ts := by
  intro t ht pp fd pkt hsend
  obtain ⟨c, hc, hmac⟩ := mapping_at p ht hsend
  refine ⟨c, hc, hmac, ?_⟩
  obtain ⟨ts₁, sw, gap, ts₂, rfl, hsw, hgap⟩ := last_sweep p ht hsend
  obtain ⟨mv, hmv, henters, hreads⟩ := entered (since_sweep p) hc
  obtain ⟨g, hg, rfl⟩ : ∃ g ∈ ts₁ ++ sw :: gap, g.1 = mv := by
    rw [← List.map_cons, ← List.map_append] at hmv
    exact List.mem_map.mp hmv
  have hmem : g ∈ ts₁ ++ sw :: (gap ++ t :: ts₂) := by
    rw [← List.cons_append, ← List.append_assoc]
    exact List.mem_append_left _ hg
  have htime := hclock.reads g hmem _ hreads
  have hseen := survived p hclock hsw hgap hc
  rcases hprompt ts₁ sw gap t ts₂ rfl hsw hgap pp fd pkt hsend g hg henters with hold | hnew
  · exact absurd hold (Int.not_le.mpr (htime ▸ hseen))
  · exact htime ▸ hnew

theorem sends_fresh_iff (p : Path (machine cfg) (ts.map Prod.fst) s h) (hclock : Clocked ts) :
    SendsFresh ts ↔ Prompt cfg ts :=
  ⟨prompt_of_fresh p hclock, fresh_of_prompt p hclock⟩

end Timed

-- A learns B's address at 1000, sweeps at 1000 and sits in select until 12000
def waitedRun : List (Event × Milliseconds) :=
  [(.sweep 1000, 1000), (.frames ⟨0, 0⟩, 1000), (.recv (.frame requestFromB) 1000 ⟨0, 0⟩, 1000),
    (.sweep 1000, 1000), (.stdin (some "send B hi\n".toList) ⟨0, 0⟩, 12000)]

def waitedMoves : List Timed :=
  ((machine hostA).moves (waitedRun.map Prod.fst)).zip (waitedRun.map Prod.snd)

theorem waited_path : Path (machine hostA) (waitedMoves.map Prod.fst)
    ((machine hostA).final (waitedRun.map Prod.fst))
    ((machine hostA).trace (waitedRun.map Prod.fst)) :=
  (machine hostA).path (waitedRun.map Prod.fst) (by decide)

theorem waited_clocked : Clocked waitedMoves :=
  ⟨by decide, by decide⟩

theorem sends_fresh_iff_waited : SendsFresh waitedMoves ↔ Prompt hostA waitedMoves :=
  sends_fresh_iff waited_path waited_clocked

def sentLate : EtherPkt :=
  { EtherPkt.uninit ⟨0, 0⟩ "aa" with
    macDst := "bb", type := 1, ipPkt := IpPkt.createPkt "10.0.0.1" "10.0.0.2" " hi" }

theorem sent_through_expired :
    ¬ ∀ (cfg : Config) (ts : List Timed) (s : State) (h : List Out),
      Path (machine cfg) (ts.map Prod.fst) s h → Clocked ts → SendsFresh ts := by
  intro hall
  have hfresh := hall _ _ _ _ waited_path waited_clocked
  let t := waitedMoves.get ⟨4, by decide⟩
  have hsend :
      .send ⟨"10.0.0.2", "10.0.0.2", "10.0.0.1", "A", " hi"⟩ true 3 sentLate ∈ t.1.out := by
    decide
  have hmapping : AList.lookup "10.0.0.2" t.1.before.store.arp = some ⟨"bb", 1000⟩ := by decide
  obtain ⟨c, hc, -, hage⟩ := hfresh t (List.get_mem _ _) _ _ _ hsend
  obtain rfl := Option.some.inj (hmapping.symm.trans hc)
  exact absurd hage (by decide)

end NetworkEmulator.Station
