import NetworkEmulator.Foundation.Table
import Mathlib.Data.List.Induction
import Mathlib.Order.Basic

namespace Renewal

inductive Call (K C T : Type) where
  | add (k : K) (c : C)
  | sweep (now : T)

-- the first and the latest content added for a key since it was last absent
structure Span (C : Type) where
  first : C
  latest : C
deriving DecidableEq, Repr

variable {K C T V : Type} [DecidableEq K] (stamp : C → T) (dead : T → T → Bool) (value : C → V)

def Call.time : Call K C T → T
  | .add _ c => stamp c
  | .sweep now => now

def keep (t : Table K C) : Call K C T → Table K C
  | .add k c => Table.insertNew k c t
  | .sweep now => Table.sweep (fun c => !dead now (stamp c)) t

def renew (t : Table K C) : Call K C T → Table K C
  | .add k c => AList.insert k c t
  | .sweep now => Table.sweep (fun c => !dead now (stamp c)) t

def extend (k : K) (o : Option (Span C)) : Call K C T → Option (Span C)
  | .add k' c => if k' = k then some ⟨(o.map Span.first).getD c, c⟩ else o
  | .sweep now => o.filter (fun sp => !dead now (stamp sp.latest))

def kept (calls : List (Call K C T)) : Table K C := calls.foldl (keep stamp dead) ∅

def renewed (calls : List (Call K C T)) : Table K C := calls.foldl (renew stamp dead) ∅

def span (calls : List (Call K C T)) (k : K) : Option (Span C) :=
  calls.foldl (extend stamp dead k) none

def Agree (calls : List (Call K C T)) : Prop :=
  ∀ k, (AList.lookup k (kept stamp dead calls)).map value =
    (AList.lookup k (renewed stamp dead calls)).map value

def Harmless (calls : List (Call K C T)) : Call K C T → Prop
  | .add k c => ∀ sp ∈ span stamp dead calls k, value c = value sp.latest
  | .sweep now => ∀ k, ∀ sp ∈ span stamp dead calls k,
      dead now (stamp sp.first) = true → dead now (stamp sp.latest) = true

def Tracks (calls : List (Call K C T)) : Prop :=
  ∀ k, AList.lookup k (kept stamp dead calls) = (span stamp dead calls k).map Span.first ∧
    ∀ sp ∈ span stamp dead calls k, value sp.first = value sp.latest

variable {stamp dead value} {calls : List (Call K C T)} {call : Call K C T} {k : K}

theorem kept_snoc : kept stamp dead (calls ++ [call]) = keep stamp dead (kept stamp dead calls) call :=
  List.foldl_concat ..

theorem renewed_snoc :
    renewed stamp dead (calls ++ [call]) = renew stamp dead (renewed stamp dead calls) call :=
  List.foldl_concat ..

theorem span_snoc :
    span stamp dead (calls ++ [call]) k = extend stamp dead k (span stamp dead calls k) call :=
  List.foldl_concat ..

theorem lookup_renewed : AList.lookup k (renewed stamp dead calls) =
    (span stamp dead calls k).map Span.latest := by
  induction calls using List.reverseRecOn with
  | nil => rfl
  | append_singleton calls call ih =>
    rw [renewed_snoc, span_snoc]
    cases call with
    | add k' c =>
      by_cases hk : k' = k
      · subst hk
        simp [renew, extend]
      · have hne : k ≠ k' := fun h => hk h.symm
        rw [renew, extend, if_neg hk, AList.lookup_insert_ne hne, ih]
    | sweep now =>
      rw [renew, extend, Table.lookup_sweep, ih]
      cases span stamp dead calls k with
      | none => rfl
      | some sp => cases hd : dead now (stamp sp.latest) <;> simp [Option.filter, hd]

theorem agree_of_tracks (h : Tracks stamp dead value calls) : Agree stamp dead value calls := by
  intro k
  obtain ⟨hl, hv⟩ := h k
  rw [hl, lookup_renewed]
  cases hs : span stamp dead calls k with
  | none => rfl
  | some sp => exact congrArg some (hv sp hs)

theorem agree_iff : Agree stamp dead value calls ↔
    ∀ k, (AList.lookup k (kept stamp dead calls)).map value =
      (span stamp dead calls k).map (fun sp => value sp.latest) := by
  refine forall_congr' fun k => ?_
  rw [lookup_renewed, Option.map_map]
  rfl

theorem tracks_nil : Tracks stamp dead value ([] : List (Call K C T)) :=
  fun _ => ⟨rfl, fun _ h => by cases h⟩

theorem tracks_add {k : K} {c : C} (h : Tracks stamp dead value calls)
    (hh : Harmless stamp dead value calls (.add k c)) :
    Tracks stamp dead value (calls ++ [.add k c]) := by
  intro k'
  rw [kept_snoc, span_snoc, keep, extend]
  by_cases hk : k = k'
  · subst hk
    obtain ⟨hl, hv⟩ := h k
    rw [if_pos rfl, Table.lookup_insertNew_self, hl]
    refine ⟨rfl, ?_⟩
    intro sp hsp
    obtain rfl := Option.some.inj hsp
    cases hs : span stamp dead calls k with
    | none => rfl
    | some sp => exact (hv sp hs).trans (hh sp hs).symm
  · have hne : k' ≠ k := fun he => hk he.symm
    rw [if_neg hk, Table.lookup_insertNew_ne hne]
    exact h k'

theorem tracks_sweep {now : T} (hdead : ∀ k, ∀ sp ∈ span stamp dead calls k,
      dead now (stamp sp.first) = dead now (stamp sp.latest))
    (h : Tracks stamp dead value calls) : Tracks stamp dead value (calls ++ [.sweep now]) := by
  intro k
  obtain ⟨hl, hv⟩ := h k
  rw [kept_snoc, span_snoc, keep, extend, Table.lookup_sweep, hl]
  cases hs : span stamp dead calls k with
  | none => exact ⟨rfl, fun _ h => by cases h⟩
  | some sp =>
    have heq := hdead k sp hs
    cases hd : dead now (stamp sp.latest) with
    | true => simp [Option.filter, heq, hd]
    | false => simpa [Option.filter, heq, hd] using hv sp hs

theorem harmless_of_agree (h : Tracks stamp dead value calls)
    (ha : Agree stamp dead value (calls ++ [call])) : Harmless stamp dead value calls call := by
  rw [agree_iff] at ha
  cases call with
  | add k c =>
    intro sp hsp
    obtain ⟨hl, hv⟩ := h k
    have hk := ha k
    rw [Option.mem_def] at hsp
    rw [kept_snoc, span_snoc, keep, extend, if_pos rfl, Table.lookup_insertNew_self, hl, hsp] at hk
    exact (Option.some.inj hk).symm.trans (hv sp hsp)
  | sweep now =>
    intro k sp hsp hfirst
    have hk := ha k
    rw [Option.mem_def] at hsp
    rw [kept_snoc, span_snoc, keep, extend, Table.lookup_sweep, (h k).1, hsp] at hk
    cases hd : dead now (stamp sp.latest) with
    | true => rfl
    | false => simp [Option.filter, hfirst, hd] at hk

section Clock
variable [Preorder T]

variable (stamp) in
structure Timely (calls : List (Call K C T)) (sp : Span C) : Prop where
  ordered : stamp sp.first ≤ stamp sp.latest
  added : ∃ call ∈ calls, call.time stamp = stamp sp.first

theorem timely_of_span (hclock : calls.Pairwise (fun a b => a.time stamp ≤ b.time stamp))
    {sp : Span C} (hs : span stamp dead calls k = some sp) :
    Timely stamp calls sp := by
  induction calls using List.reverseRecOn generalizing sp with
  | nil => cases hs
  | append_singleton calls call ih =>
    obtain ⟨hcalls, -, hlater⟩ := List.pairwise_append.mp hclock
    rw [span_snoc] at hs
    have hold : ∀ {sp}, span stamp dead calls k = some sp →
        Timely stamp (calls ++ [call]) sp := by
      intro sp hsp
      obtain ⟨hle, call', hmem, htime⟩ := ih hcalls hsp
      exact ⟨hle, call', List.mem_append_left _ hmem, htime⟩
    cases call with
    | add k' c =>
      by_cases hk : k' = k
      · rw [extend, if_pos hk] at hs
        obtain rfl := Option.some.inj hs
        cases hprev : span stamp dead calls k with
        | none => exact ⟨le_refl _, .add k' c, by simp, rfl⟩
        | some sp =>
          obtain ⟨-, call', hmem, htime⟩ := ih hcalls hprev
          refine ⟨?_, call', List.mem_append_left _ hmem, htime⟩
          exact htime.symm.le.trans (hlater call' hmem (.add k' c) (by simp))
      · rw [extend, if_neg hk] at hs
        exact hold hs
    | sweep now =>
      rw [extend, Option.filter_eq_some_iff] at hs
      exact hold hs.1

variable (hdead : ∀ now s s', s ≤ s' → dead now s' = true → dead now s = true)
include hdead

theorem dead_eq (hclock : calls.Pairwise (fun a b => a.time stamp ≤ b.time stamp)) {now : T}
    (hh : Harmless stamp dead value calls (.sweep now)) :
    ∀ k, ∀ sp ∈ span stamp dead calls k,
      dead now (stamp sp.first) = dead now (stamp sp.latest) := by
  intro k sp hs
  have hle := (timely_of_span hclock hs).ordered
  exact Bool.eq_iff_iff.mpr ⟨hh k sp hs, hdead now _ _ hle⟩

theorem tracks_snoc (hclock : calls.Pairwise (fun a b => a.time stamp ≤ b.time stamp))
    (h : Tracks stamp dead value calls) (hh : Harmless stamp dead value calls call) :
    Tracks stamp dead value (calls ++ [call]) := by
  cases call with
  | add k c => exact tracks_add h hh
  | sweep now => exact tracks_sweep (dead_eq hdead hclock hh) h

theorem tracks_throughout (hclock : calls.Pairwise (fun a b => a.time stamp ≤ b.time stamp))
    (hh : ∀ pre call, pre ++ [call] <+: calls → Tracks stamp dead value pre →
      Harmless stamp dead value pre call) : Tracks stamp dead value calls := by
  induction calls using List.reverseRecOn with
  | nil => exact tracks_nil
  | append_singleton calls call ih =>
    obtain ⟨hcalls, -, -⟩ := List.pairwise_append.mp hclock
    have hprev := ih hcalls fun pre call' hp => hh pre call' (hp.trans (List.prefix_append _ _))
    exact tracks_snoc hdead hcalls hprev (hh calls call (List.prefix_refl _) hprev)

theorem tracks_of_harmless (hclock : calls.Pairwise (fun a b => a.time stamp ≤ b.time stamp))
    (hh : ∀ pre call, pre ++ [call] <+: calls → Harmless stamp dead value pre call) :
    Tracks stamp dead value calls :=
  tracks_throughout hdead hclock fun pre call hp _ => hh pre call hp

theorem tracks_of_agree (hclock : calls.Pairwise (fun a b => a.time stamp ≤ b.time stamp))
    (ha : ∀ pre, pre <+: calls → Agree stamp dead value pre) : Tracks stamp dead value calls :=
  tracks_throughout hdead hclock fun _ _ hp htracks => harmless_of_agree htracks (ha _ hp)

theorem agree_throughout_iff
    (hclock : calls.Pairwise (fun a b => a.time stamp ≤ b.time stamp)) :
    (∀ pre, pre <+: calls → Agree stamp dead value pre) ↔
      ∀ pre call, pre ++ [call] <+: calls → Harmless stamp dead value pre call := by
  constructor
  · intro ha pre call hp
    have hpre := (List.prefix_append pre [call]).trans hp
    have htracks := tracks_of_agree hdead (hclock.sublist hpre.sublist)
      fun pre' hp' => ha pre' (hp'.trans hpre)
    exact harmless_of_agree htracks (ha _ hp)
  · intro hh pre hp
    exact agree_of_tracks (tracks_of_harmless hdead (hclock.sublist hp.sublist)
      fun pre' call hp' => hh pre' call (hp'.trans hp))

end Clock

end Renewal
