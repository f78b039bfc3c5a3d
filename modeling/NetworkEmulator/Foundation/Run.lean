import Mathlib.Data.List.Induction
import Mathlib.Tactic.Common

namespace Transition

structure Machine (S E O : Type) where
  init : S
  step : S → E → Option (S × List O)

structure Move (S E O : Type) where
  before : S
  log : List O
  event : E
  after : S
  out : List O

def Move.logAfter {S E O : Type} (m : Move S E O) : List O := m.log ++ m.out

variable {S E O : Type}

inductive Path (M : Machine S E O) : List (Move S E O) → S → List O → Prop
  | nil : Path M [] M.init []
  | snoc {ms : List (Move S E O)} {s s' : S} {h o : List O} {e : E} :
      Path M ms s h → M.step s e = some (s', o) →
      Path M (ms ++ [⟨s, h, e, s', o⟩]) s' (h ++ o)

variable {M : Machine S E O} {ms ms₁ ms₂ : List (Move S E O)} {s : S} {h : List O}

theorem Path.guarded (Inv : S → List O → Prop) {P : Move S E O → Prop}
    (base : Inv M.init [])
    (step : ∀ {s h e s' o}, Inv s h → M.step s e = some (s', o) → P ⟨s, h, e, s', o⟩ →
      Inv s' (h ++ o))
    (p : Path M ms s h) (hp : ∀ m ∈ ms, P m) : Inv s h := by
  induction p with
  | nil => exact base
  | snoc _ hs ih =>
    have hprev := ih (fun m hm => hp m (List.mem_append_left _ hm))
    exact step hprev hs (hp _ (by simp))

theorem Path.invariant (Inv : S → List O → Prop)
    (base : Inv M.init [])
    (step : ∀ {s h e s' o}, Inv s h → M.step s e = some (s', o) → Inv s' (h ++ o))
    (p : Path M ms s h) : Inv s h :=
  p.guarded Inv (P := fun _ => True) base (fun hi hs _ => step hi hs) (fun _ _ => trivial)

theorem Path.before {m : Move S E O} (p : Path M ms s h) (hm : m ∈ ms) :
    ∃ ms', ms' ⊆ ms ∧ Path M ms' m.before m.log ∧
      M.step m.before m.event = some (m.after, m.out) := by
  induction p with
  | nil => simp at hm
  | @snoc ms _ _ _ _ _ p hs ih =>
    rcases List.mem_append.mp hm with hm | hm
    · obtain ⟨ms', hsub, hp, hstep⟩ := ih hm
      exact ⟨ms', fun x hx => List.mem_append_left _ (hsub hx), hp, hstep⟩
    · obtain rfl := List.mem_singleton.mp hm
      exact ⟨ms, List.subset_append_left _ _, p, hs⟩

theorem Path.upTo {m : Move S E O} (p : Path M ms s h) (hm : m ∈ ms) :
    ∃ ms', ms' ⊆ ms ∧ Path M ms' m.after m.logAfter := by
  obtain ⟨ms', hsub, hp, hstep⟩ := p.before hm
  refine ⟨ms' ++ [m], ?_, hp.snoc hstep⟩
  simpa [hsub] using hm

theorem Path.log_prefix {m : Move S E O} (p : Path M ms s h) (hm : m ∈ ms) :
    ∃ h₂, h = m.logAfter ++ h₂ := by
  induction p with
  | nil => simp at hm
  | @snoc ms _ _ h o _ p hs ih =>
    rcases List.mem_append.mp hm with hm | hm
    · obtain ⟨h₂, heq⟩ := ih hm
      exact ⟨h₂ ++ o, by rw [heq, List.append_assoc]⟩
    · obtain rfl := List.mem_singleton.mp hm
      exact ⟨[], (List.append_nil _).symm⟩

theorem Path.nil_inv (p : Path M [] s h) : s = M.init ∧ h = [] := by
  generalize hms : ([] : List (Move S E O)) = all at p
  cases p with
  | nil => exact ⟨rfl, rfl⟩
  | snoc => simp at hms

theorem Path.snoc_inv {m : Move S E O} (p : Path M (ms ++ [m]) s h) :
    Path M ms m.before m.log ∧ M.step m.before m.event = some (m.after, m.out) ∧
      s = m.after ∧ h = m.logAfter := by
  generalize hms : ms ++ [m] = all at p
  cases p with
  | nil => simp at hms
  | snoc p hs =>
    obtain ⟨rfl, hm⟩ := List.append_inj' hms rfl
    obtain rfl := List.singleton_inj.mp hm
    exact ⟨p, hs, rfl, rfl⟩

theorem Path.split (p : Path M (ms₁ ++ ms₂) s h) : ∃ s₁ h₁, Path M ms₁ s₁ h₁ := by
  induction ms₂ using List.reverseRecOn generalizing s h with
  | nil => exact ⟨s, h, by simpa using p⟩
  | append_singleton ms₂ m ih =>
    rw [← List.append_assoc] at p
    exact ih p.snoc_inv.1

theorem Path.at_move {m : Move S E O} (p : Path M (ms₁ ++ m :: ms₂) s h) :
    Path M ms₁ m.before m.log ∧ M.step m.before m.event = some (m.after, m.out) := by
  rw [List.append_cons] at p
  obtain ⟨_, _, p⟩ := p.split
  exact ⟨p.snoc_inv.1, p.snoc_inv.2.1⟩

theorem Path.along (Inv : S → Prop) {P : Move S E O → Prop}
    (step : ∀ {m : Move S E O}, Inv m.before → M.step m.before m.event = some (m.after, m.out) →
      P m → Inv m.after)
    {m : Move S E O} (p : Path M (ms₁ ++ m :: ms₂) s h) (hm : Inv m.after)
    (hp : ∀ m' ∈ ms₂, P m') : Inv s := by
  induction ms₂ using List.reverseRecOn generalizing s h with
  | nil => exact p.snoc_inv.2.2.1 ▸ hm
  | append_singleton ms₂ m' ih =>
    rw [← List.cons_append, ← List.append_assoc] at p
    obtain ⟨hprev, hs, rfl, -⟩ := p.snoc_inv
    have hbefore := ih hprev fun m'' hm'' => hp m'' (List.mem_append_left _ hm'')
    exact step hbefore hs (hp m' (by simp))

theorem exists_last {α : Type} {P : α → Prop} {xs : List α} (h : ∃ x ∈ xs, P x) :
    ∃ xs₁ x xs₂, xs = xs₁ ++ x :: xs₂ ∧ P x ∧ ∀ y ∈ xs₂, ¬ P y := by
  induction xs using List.reverseRecOn with
  | nil => simp at h
  | append_singleton xs x ih =>
    by_cases hx : P x
    · exact ⟨xs, x, [], rfl, hx, by simp⟩
    · obtain ⟨y, hy, hpy⟩ := h
      rcases List.mem_append.mp hy with hy | hy
      · obtain ⟨xs₁, z, xs₂, rfl, hz, hlast⟩ := ih ⟨y, hy, hpy⟩
        refine ⟨xs₁, z, xs₂ ++ [x], by simp, hz, fun w hw => ?_⟩
        rcases List.mem_append.mp hw with hw | hw
        · exact hlast w hw
        · exact List.mem_singleton.mp hw ▸ hx
      · exact absurd (List.mem_singleton.mp hy ▸ hpy) hx

def Machine.play (M : Machine S E O) :
    List E → List (Move S E O) × S × List O → Option (List (Move S E O) × S × List O)
  | [], r => some r
  | e :: es, (ms, s, h) =>
    (M.step s e).bind fun t => M.play es (ms ++ [⟨s, h, e, t.1, t.2⟩], t.1, h ++ t.2)

theorem Path.play {es : List E} {r r' : List (Move S E O) × S × List O}
    (p : Path M r.1 r.2.1 r.2.2) (hr : M.play es r = some r') :
    Path M r'.1 r'.2.1 r'.2.2 := by
  induction es generalizing r with
  | nil => simp only [Machine.play, Option.some.injEq] at hr; exact hr ▸ p
  | cons e es ih =>
    simp only [Machine.play, Option.bind_eq_some_iff] at hr
    obtain ⟨t, ht, hr⟩ := hr
    exact ih (p.snoc ht) hr

namespace Machine
variable (M : Machine S E O) (es : List E)

def runs : Option (List (Move S E O) × S × List O) := M.play es ([], M.init, [])

def moves : List (Move S E O) := ((M.runs es).map (·.1)).getD []

def final : S := ((M.runs es).map (·.2.1)).getD M.init

def trace : List O := ((M.runs es).map (·.2.2)).getD []

theorem path (hs : (M.runs es).isSome) : Path M (M.moves es) (M.final es) (M.trace es) := by
  obtain ⟨r, hr⟩ := Option.isSome_iff_exists.mp hs
  have hp : Path M r.1 r.2.1 r.2.2 := Path.play (r := ([], M.init, [])) .nil hr
  simpa [moves, final, trace, hr] using hp

end Machine

end Transition
