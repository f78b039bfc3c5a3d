import NetworkEmulator.Foundation.Run

namespace Exchange

open Transition

variable {K P G E O : Type} {S : K → Type}

-- the parts of a global state and the messages on their way between them
structure View (G P : Type) (S : K → Type) where
  part : G → (k : K) → S k
  flight : G → P → Prop

structure Exchanges (V : View G P S) (k : K) (takes puts : P → Prop) (g g' : G) : Prop where
  others : ∀ j, j ≠ k → V.part g' j = V.part g j
  taken : ∀ p, takes p → V.flight g p
  put : ∀ p, V.flight g' p → V.flight g p ∨ puts p

structure Contract (O P : Type) (S : K → Type) where
  good : List O → P → Prop
  keeps : (k : K) → List O → S k → Prop
  good_append : ∀ {h p} (out : List O), good h p → good (h ++ out) p
  keeps_append : ∀ {k h s} (out : List O), keeps k h s → keeps k (h ++ out) s

structure Contract.Holds (C : Contract O P S) (V : View G P S) (h : List O) (g : G) : Prop where
  parts : ∀ k, C.keeps k h (V.part g k)
  flight : ∀ p, V.flight g p → C.good h p

def Contract.Honours (C : Contract O P S) (V : View G P S) (h out : List O) (k : K)
    (takes puts : P → Prop) (g g' : G) : Prop :=
  C.keeps k h (V.part g k) → (∀ p, takes p → C.good h p) →
    C.keeps k (h ++ out) (V.part g' k) ∧ ∀ p, puts p → C.good (h ++ out) p

def Contract.Moves (C : Contract O P S) (V : View G P S) (h out : List O) (g g' : G) : Prop :=
  ∃ k takes puts, Exchanges V k takes puts g g' ∧ C.Honours V h out k takes puts g g'

variable {C : Contract O P S} {V : View G P S} {h out : List O} {g g' : G} {k : K}
  {takes puts : P → Prop}

theorem Contract.Holds.exchange (hc : C.Holds V h g) (hx : Exchanges V k takes puts g g')
    (hh : C.Honours V h out k takes puts g g') : C.Holds V (h ++ out) g' := by
  obtain ⟨hk, hputs⟩ := hh (hc.parts k) fun p hp => hc.flight p (hx.taken p hp)
  constructor
  · intro j
    by_cases hj : j = k
    · exact hj ▸ hk
    · rw [hx.others j hj]
      exact C.keeps_append out (hc.parts j)
  · intro p hp
    rcases hx.put p hp with hp | hp
    · exact C.good_append out (hc.flight p hp)
    · exact hputs p hp

theorem Contract.Holds.moves (hc : C.Holds V h g) (hm : C.Moves V h out g g') :
    C.Holds V (h ++ out) g' := by
  obtain ⟨k, takes, puts, hx, hh⟩ := hm
  exact hc.exchange hx hh

-- every step is an exchange that honours the contract, so the contract holds in every state
-- reached; Inv is what the steps need besides
theorem Contract.holds_of_path {M : Machine G E O} {ms : List (Move G E O)} {s : G}
    (Inv : G → Prop) (base : Inv M.init) (hold : C.Holds V [] M.init)
    (keep : ∀ {s e s' o}, Inv s → M.step s e = some (s', o) → Inv s')
    (step : ∀ {s h e s' o}, Inv s → M.step s e = some (s', o) → C.Moves V h o s s')
    (p : Path M ms s h) : C.Holds V h s := by
  have hboth : Inv s ∧ C.Holds V h s :=
    p.invariant (fun s h => Inv s ∧ C.Holds V h s) ⟨base, hold⟩ fun hi hs =>
      ⟨keep hi.1 hs, hi.2.moves (step hi.1 hs)⟩
  exact hboth.2

end Exchange
