import NetworkEmulator.Foundation.Run

namespace Transition

variable {S T E F O : Type} {M : Machine S E O} {N : Machine T F O} {t t' : T} {f : F}
  {o : List O}

inductive Steps (N : Machine T F O) (t : T) : T → List O → Prop
  | refl : Steps N t t []
  | tail {t' t'' : T} {o o' : List O} {f : F} :
      Steps N t t' o → N.step t' f = some (t'', o') → Steps N t t'' (o ++ o')

theorem Steps.single (hs : N.step t f = some (t', o)) : Steps N t t' o :=
  Steps.refl.tail hs

theorem Path.steps {ns : List (Move T F O)} {h : List O} (p : Path N ns t h)
    (hs : Steps N t t' o) : ∃ ns', Path N ns' t' (h ++ o) := by
  induction hs with
  | refl => exact ⟨ns, by simpa using p⟩
  | tail _ hstep ih =>
    obtain ⟨ns', hp⟩ := ih
    rw [← List.append_assoc]
    exact ⟨_, hp.snoc hstep⟩

structure Simulates (M : Machine S E O) (N : Machine T F O) (R : S → T → Prop) : Prop where
  init : R M.init N.init
  step : ∀ {s s' : S} {t : T} {e : E} {o : List O}, R s t → M.step s e = some (s', o) →
    ∃ t', Steps N t t' o ∧ R s' t'

theorem Path.simulated {R : S → T → Prop} (hsim : Simulates M N R) {ms : List (Move S E O)}
    {s : S} {h : List O} (p : Path M ms s h) : ∃ t ns, Path N ns t h ∧ R s t := by
  induction p with
  | nil => exact ⟨_, _, .nil, hsim.init⟩
  | snoc _ hs ih =>
    obtain ⟨t, ns, hp, hr⟩ := ih
    obtain ⟨t', hsteps, hr'⟩ := hsim.step hr hs
    obtain ⟨ns', hp'⟩ := hp.steps hsteps
    exact ⟨t', ns', hp', hr'⟩

end Transition
