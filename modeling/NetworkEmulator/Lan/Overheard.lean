import NetworkEmulator.Lan.Lossless

namespace NetworkEmulator.Lan

open Transition

variable {ι : Type} {L : Plan ι} {s s' : State ι} {out h : List (Out ι)} {since : Milliseconds}
  {k : ι} {c : ConnId} {fd : Port} {pkt recv : EtherPkt}

def IsRequest (pkt : EtherPkt) : Prop := pkt.type = 0 ∧ pkt.arpPkt.op = 0

def Sealed (L : Plan ι) (s : State ι) : Prop :=
  ∀ x ∈ s.down, IsRequest x.2 ∨ ∃ j, s.conn j = some x.1 ∧ x.2.macDst = L.mac j

theorem sealed_conveys (ha : Addressed L) {copies : Link ConnId EtherPkt} (hb : Bound L s k pkt)
    (hconv : Conveys L s fd pkt copies) :
    ∀ x ∈ copies, IsRequest x.2 ∨ ∃ j, s.conn j = some x.1 ∧ x.2.macDst = L.mac j := by
  intro x hx
  have hframe := conveys_frame hconv hx
  cases hconv with
  | broadcast i client hi hfd hd =>
    rcases bound_macDst hb with ⟨-, ht, ho⟩ | ⟨j, -, hd'⟩
    · rw [hframe]
      exact Or.inl ⟨ht, ho⟩
    · exact absurd (hd'.symm.trans hd) (ha.nonempty j)
  | direct j c hj hd =>
    rw [List.mem_singleton.mp hx]
    exact Or.inr ⟨j, hj, hd⟩

theorem sealed_calmly [DecidableEq ι] (ha : Addressed L) (hse : Settled L since s)
    (hsl : Sealed L s) (hc : Calmly L since s s' out) : Sealed L s' := by
  cases hc with
  | join k w b hk =>
    intro x hx
    rcases hsl x hx with hreq | ⟨j, hj, hmac⟩
    · exact Or.inl hreq
    · exact Or.inr ⟨j, conn_joined hk b hj, hmac⟩
  | still => exact hsl
  | relay w b bout fd pkt c up hw hb hr hp hd =>
    obtain ⟨k, -, -, hbound⟩ :=
      hse.up (c, pkt) ((Link.receive_perm hd).mem_iff.mp List.mem_cons_self)
    obtain ⟨hconv, -, -⟩ := conveys_of_relays ha hse hw hbound hr
    intro x hx
    rcases List.mem_append.mp hx with hx | hx
    · exact hsl x hx
    · exact sealed_conveys ha hbound hconv x hx
  | station k c e down n sout hc hf => exact fun x hx => hsl x (fetch_subset hf hx)

theorem sealed_run [DecidableEq ι] {ms : List (Move (State ι) (Event ι) (Out ι))}
    (p : Path (machine L) ms s h) (ha : Addressed L)
    (hcalm : ∀ mv ∈ ms, Calm since mv.before mv.event) : Settled L since s ∧ Sealed L s := by
  have hinit : Sealed L (machine L).init := by simp [Sealed, machine]
  have hall : Sound L s ∧ Settled L since s ∧ Sealed L s := by
    refine p.guarded (fun s _ => Sound L s ∧ Settled L since s ∧ Sealed L s)
      ⟨sound .nil, settled_init, hinit⟩ ?_ hcalm
    rintro s h e s' o ⟨hso, hse, hsl⟩ hs hc
    have hcalmly := calmly_of_step hs hc
    exact ⟨sound_happens hso (happens_of_step hs), settled_calmly ha hso hse hcalmly,
      sealed_calmly ha hse hsl hcalmly⟩
  exact hall.2

theorem nothing_overheard [DecidableEq ι] {ms : List (Move (State ι) (Event ι) (Out ι))}
    (p : Path (machine L) ms s h) (ha : Addressed L)
    (hcalm : ∀ mv ∈ ms, Calm since mv.before mv.event) :
    ∀ mv ∈ ms, ∀ k recv now u, mv.event = .station k (.recv (.frame recv) now u) →
      (IsRequest recv ∨ recv.macDst = L.mac k) ∧ ∃ j, Signed L j recv := by
  intro mv hmv k recv now u he
  obtain ⟨ms', hsub, hp, hs⟩ := p.before hmv
  obtain ⟨hse, hsl⟩ := sealed_run hp ha fun mv' hmv' => hcalm mv' (hsub hmv')
  rw [he] at hs
  obtain ⟨c, hc, hs⟩ := Option.bind_eq_some_iff.mp hs
  obtain ⟨down, hf, -⟩ := Option.bind_eq_some_iff.mp hs
  have hmem : (c, recv) ∈ mv.before.down := (Link.receive_perm hf).mem_iff.mp List.mem_cons_self
  obtain ⟨j, -, hsig⟩ := hse.down (c, recv) hmem
  refine ⟨?_, j, hsig⟩
  rcases hsl (c, recv) hmem with hreq | ⟨j, hj, hmac⟩
  · exact Or.inl hreq
  · exact Or.inr (hse.connInj j k c hj hc ▸ hmac)

def lastRead : Move (State Bool) (Event Bool) (Out Bool) :=
  ((machine pairPlan).moves greetingRun).get ⟨15, by decide⟩

theorem nothing_overheard_greeting :
    (IsRequest packetFromA ∨ packetFromA.macDst = pairPlan.mac true) ∧
      ∃ j, Signed pairPlan j packetFromA :=
  nothing_overheard ((machine pairPlan).path greetingRun (by decide)) addressed_pairPlan
    calm_greeting lastRead (List.get_mem _ _) true packetFromA 0 ⟨0, 0⟩ rfl

end NetworkEmulator.Lan
