import Mathlib.Data.List.Induction
import Mathlib.Data.List.Perm.Basic
import Mathlib.Tactic.Common

inductive Ledger.Entry (α β : Type) where
  | direct (a : α) (b : β)
  | wait (a : α)
  | release (k : ℕ) (b : β)

structure Ledger (α β : Type) where
  accepted : List α
  waiting : List (ℕ × α)
  sent : List (ℕ × α × β)
  waiting_item : ∀ t ∈ waiting, accepted[t.1]? = some t.2
  sent_item : ∀ t ∈ sent, accepted[t.1]? = some t.2.1
  sorted : (waiting.map Prod.fst).Pairwise (· < ·)
  once : (sent.map Prod.fst ++ waiting.map Prod.fst).Perm (List.range accepted.length)

namespace Ledger

variable {α β κ : Type}

def empty : Ledger α β := ⟨[], [], [], by simp, by simp, .nil, .nil⟩

theorem item_append {accepted : List α} {n : ℕ} {a : α} (h : accepted[n]? = some a) (b : α) :
    (accepted ++ [b])[n]? = some a := by
  obtain ⟨hn, -⟩ := List.getElem?_eq_some_iff.mp h
  rw [List.getElem?_append_left hn, h]

theorem waiting_lt (l : Ledger α β) {t : ℕ × α} (ht : t ∈ l.waiting) :
    t.1 < l.accepted.length :=
  (List.getElem?_eq_some_iff.mp (l.waiting_item t ht)).1

def direct (l : Ledger α β) (a : α) (b : β) : Ledger α β where
  accepted := l.accepted ++ [a]
  waiting := l.waiting
  sent := l.sent ++ [(l.accepted.length, a, b)]
  waiting_item t ht := item_append (l.waiting_item t ht) a
  sent_item t ht := by
    rcases List.mem_append.mp ht with ht | ht
    · exact item_append (l.sent_item t ht) a
    · simp [List.mem_singleton.mp ht]
  sorted := l.sorted
  once := by
    have h := l.once.append_right [l.accepted.length]
    simp only [List.length_append, List.length_singleton, List.range_succ, List.map_append,
      List.map_cons, List.map_nil]
    refine List.Perm.trans ?_ h
    simpa only [List.append_assoc] using List.perm_append_comm.append_left _

def wait (l : Ledger α β) (a : α) : Ledger α β where
  accepted := l.accepted ++ [a]
  waiting := l.waiting ++ [(l.accepted.length, a)]
  sent := l.sent
  waiting_item t ht := by
    rcases List.mem_append.mp ht with ht | ht
    · exact item_append (l.waiting_item t ht) a
    · simp [List.mem_singleton.mp ht]
  sent_item t ht := item_append (l.sent_item t ht) a
  sorted := by
    simp only [List.map_append, List.map_cons, List.map_nil, List.pairwise_append,
      List.mem_map, List.mem_singleton]
    refine ⟨l.sorted, List.pairwise_singleton _ _, ?_⟩
    rintro _ ⟨t, ht, rfl⟩ _ rfl
    exact l.waiting_lt ht
  once := by
    simpa only [List.length_append, List.length_singleton, List.range_succ, List.map_append,
      List.map_cons, List.map_nil, List.append_assoc] using
      l.once.append_right [l.accepted.length]

theorem perm_eraseIdx {γ : Type} {xs : List γ} {k : ℕ} {x : γ} (h : xs[k]? = some x) :
    (x :: xs.eraseIdx k).Perm xs := by
  obtain ⟨hk, rfl⟩ := List.getElem?_eq_some_iff.mp h
  exact List.getElem_cons_eraseIdx_perm hk

def release (l : Ledger α β) (k : ℕ) (b : β) : Ledger α β :=
  match h : l.waiting[k]? with
  | none => l
  | some (n, a) =>
    { accepted := l.accepted
      waiting := l.waiting.eraseIdx k
      sent := l.sent ++ [(n, a, b)]
      waiting_item := fun t ht => l.waiting_item t (List.mem_of_mem_eraseIdx ht)
      sent_item := by
        intro t ht
        rcases List.mem_append.mp ht with ht | ht
        · exact l.sent_item t ht
        · obtain rfl := List.mem_singleton.mp ht
          exact l.waiting_item (n, a) (List.mem_of_getElem? h)
      sorted := l.sorted.sublist ((List.eraseIdx_sublist _ _).map _)
      once := by
        refine List.Perm.trans ?_ l.once
        have hp := (perm_eraseIdx h).map Prod.fst
        simpa using hp.append_left (l.sent.map Prod.fst) }

def record (l : Ledger α β) : Entry α β → Ledger α β
  | .direct a b => l.direct a b
  | .wait a => l.wait a
  | .release k b => l.release k b

def ofEntries (es : List (Entry α β)) : Ledger α β := es.foldl record empty

@[simp] theorem ofEntries_nil : ofEntries ([] : List (Entry α β)) = empty := rfl

@[simp] theorem ofEntries_snoc (es : List (Entry α β)) (e : Entry α β) :
    ofEntries (es ++ [e]) = (ofEntries es).record e := by
  simp [ofEntries, List.foldl_append]

theorem countP_accepted (l : Ledger α β) (p : α → Bool) :
    l.accepted.countP p =
      l.sent.countP (fun t => p t.2.1) + l.waiting.countP (fun t => p t.2) := by
  let q : ℕ → Bool := fun n => (l.accepted[n]?).any p
  have hrange : (List.range l.accepted.length).countP q = l.accepted.countP p := by
    have hmap : (List.range l.accepted.length).map (l.accepted[·]?) = l.accepted.map some := by
      apply List.ext_getElem <;> simp
    have hq : q = (fun o : Option α => o.any p) ∘ (l.accepted[·]?) := rfl
    rw [hq, ← List.countP_map, hmap, List.countP_map]
    rfl
  have hsent : (l.sent.map Prod.fst).countP q = l.sent.countP (fun t => p t.2.1) := by
    rw [List.countP_map]
    exact List.countP_congr fun t ht => by simp [q, l.sent_item t ht]
  have hwait : (l.waiting.map Prod.fst).countP q = l.waiting.countP (fun t => p t.2) := by
    rw [List.countP_map]
    exact List.countP_congr fun t ht => by simp [q, l.waiting_item t ht]
  rw [← hrange, ← l.once.countP_eq, List.countP_append, hsent, hwait]

theorem release_of_getElem? {l : Ledger α β} {k n : ℕ} {a : α} (b : β)
    (h : l.waiting[k]? = some (n, a)) :
    (l.release k b).accepted = l.accepted ∧
      (l.release k b).waiting = l.waiting.eraseIdx k ∧
      (l.release k b).sent = l.sent ++ [(n, a, b)] := by
  unfold release
  split
  · rename_i h'
    simp [h] at h'
  · rename_i h'
    obtain ⟨rfl, rfl⟩ := Prod.mk.inj (Option.some.inj (h.symm.trans h'))
    exact ⟨rfl, rfl, rfl⟩

theorem release_of_none {l : Ledger α β} {k : ℕ} (b : β) (h : l.waiting[k]? = none) :
    l.release k b = l := by
  unfold release
  split
  · rfl
  · rename_i h'
    simp [h] at h'

theorem accepted_mono (l : Ledger α β) (e : Entry α β) {n : ℕ} {a : α}
    (h : l.accepted[n]? = some a) : (l.record e).accepted[n]? = some a := by
  cases e with
  | direct x b => exact item_append h x
  | wait x => exact item_append h x
  | release k b =>
    cases hk : l.waiting[k]? with
    | none => simpa [record, release_of_none b hk] using h
    | some t => simpa [record, (release_of_getElem? b hk).1] using h

theorem sent_mono (l : Ledger α β) (e : Entry α β) {t : ℕ × α × β} (h : t ∈ l.sent) :
    t ∈ (l.record e).sent := by
  cases e with
  | direct x b => exact List.mem_append_left _ h
  | wait x => exact h
  | release k b =>
    cases hk : l.waiting[k]? with
    | none => simpa [record, release_of_none b hk] using h
    | some u =>
      rw [record, (release_of_getElem? b hk).2.2]
      exact List.mem_append_left _ h

theorem kept_append {P : Ledger α β → Prop} (hstep : ∀ l e, P l → P (record l e))
    {es : List (Entry α β)} (es' : List (Entry α β)) (h : P (ofEntries es)) :
    P (ofEntries (es ++ es')) := by
  induction es' using List.reverseRecOn with
  | nil => simpa using h
  | append_singleton es' e ih =>
    rw [← List.append_assoc, ofEntries_snoc]
    exact hstep _ e ih

theorem accepted_append {es : List (Entry α β)} (es' : List (Entry α β)) {n : ℕ} {a : α}
    (h : (ofEntries es).accepted[n]? = some a) : (ofEntries (es ++ es')).accepted[n]? = some a :=
  kept_append (P := fun l => l.accepted[n]? = some a) (fun l e hl => accepted_mono l e hl) es' h

theorem sent_append {es : List (Entry α β)} (es' : List (Entry α β)) {t : ℕ × α × β}
    (h : t ∈ (ofEntries es).sent) : t ∈ (ofEntries (es ++ es')).sent :=
  kept_append (P := fun l => t ∈ l.sent) (fun l e hl => sent_mono l e hl) es' h

def Lawful (C : Ledger α β → Entry α β → Prop) (es : List (Entry α β)) : Prop :=
  ∀ es₁ e es₂, es = es₁ ++ e :: es₂ → C (ofEntries es₁) e

theorem lawful_nil {C : Ledger α β → Entry α β → Prop} : Lawful C [] := by
  intro es₁ e es₂ h
  simp at h

theorem lawful_snoc {C : Ledger α β → Entry α β → Prop} {es : List (Entry α β)} {e : Entry α β} :
    Lawful C (es ++ [e]) ↔ Lawful C es ∧ C (ofEntries es) e := by
  constructor
  · intro h
    refine ⟨?_, h es e [] rfl⟩
    rintro es₁ x es₂ rfl
    exact h es₁ x (es₂ ++ [e]) (by simp)
  · rintro ⟨h, he⟩ es₁ x es₂ heq
    rcases List.eq_nil_or_concat es₂ with rfl | ⟨es₃, y, rfl⟩
    · obtain ⟨rfl, hx⟩ := List.append_inj' heq rfl
      exact List.cons.inj hx |>.1 ▸ he
    · rw [List.concat_eq_append, ← List.cons_append, ← List.append_assoc] at heq
      exact h es₁ x es₃ (List.append_inj' heq rfl).1

def Certified (R : α → β → Prop) (l : Ledger α β) : Entry α β → Prop
  | .direct a b => R a b
  | .wait _ => True
  | .release k b => ∀ t, l.waiting[k]? = some t → R t.2 b

theorem sent_certified {R : α → β → Prop} {es : List (Entry α β)} (h : Lawful (Certified R) es) :
    ∀ t ∈ (ofEntries es).sent, R t.2.1 t.2.2 := by
  induction es using List.reverseRecOn with
  | nil => simp [empty]
  | append_singleton es e ih =>
    obtain ⟨hes, he⟩ := lawful_snoc.mp h
    have hold := ih hes
    rw [ofEntries_snoc]
    cases e with
    | direct a b =>
      intro t ht
      rcases List.mem_append.mp ht with ht | ht
      · exact hold t ht
      · obtain rfl := List.mem_singleton.mp ht
        exact he
    | wait a => exact hold
    | release k b =>
      cases hk : (ofEntries es).waiting[k]? with
      | none => simpa [record, release_of_none b hk] using hold
      | some t =>
        intro u hu
        rw [record, (release_of_getElem? b hk).2.2] at hu
        rcases List.mem_append.mp hu with hu | hu
        · exact hold u hu
        · obtain rfl := List.mem_singleton.mp hu
          exact he t hk

def FirstOfKey (key : α → κ) (l : Ledger α β) : Entry α β → Prop
  | .release k _ => ∀ t, l.waiting[k]? = some t → ∀ t' ∈ l.waiting.take k, key t'.2 ≠ key t.2
  | _ => True

theorem mem_take_of_lt {xs : List (ℕ × α)} (hs : (xs.map Prod.fst).Pairwise (· < ·)) {k : ℕ}
    {t u : ℕ × α} (hk : xs[k]? = some t) (hu : u ∈ xs) (hlt : u.1 < t.1) : u ∈ xs.take k := by
  obtain ⟨j, hj, rfl⟩ := List.mem_iff_getElem.mp hu
  obtain ⟨hk', rfl⟩ := List.getElem?_eq_some_iff.mp hk
  have hmono := List.pairwise_iff_getElem.mp hs
  have hjk : j < k := by
    by_contra hle
    rcases Nat.lt_or_eq_of_le (Nat.not_lt.mp hle) with h | rfl
    · have := hmono k j (by simpa using hk') (by simpa using hj) h
      simp only [List.getElem_map] at this
      omega
    · exact Nat.lt_irrefl _ hlt
  exact List.mem_take_iff_getElem.mpr ⟨j, by omega, rfl⟩

theorem overtaken {key : α → κ} {es : List (Entry α β)} (h : Lawful (FirstOfKey key) es)
    {p q : ℕ × α} {b : β} (hq : (q.1, q.2, b) ∈ (ofEntries es).sent)
    (hp : p ∈ (ofEntries es).waiting) (hlt : p.1 < q.1) (hkey : key p.2 = key q.2) :
    ∃ es₁ es₂, es = es₁ ++ .direct q.2 b :: es₂ ∧ (ofEntries es₁).accepted.length = q.1 ∧
      p ∈ (ofEntries es₁).waiting := by
  induction es using List.reverseRecOn with
  | nil => simp [empty] at hp
  | append_singleton es e ih =>
    obtain ⟨hes, he⟩ := lawful_snoc.mp h
    have extend : (q.1, q.2, b) ∈ (ofEntries es).sent → p ∈ (ofEntries es).waiting →
        ∃ es₁ es₂, es ++ [e] = es₁ ++ .direct q.2 b :: es₂ ∧
          (ofEntries es₁).accepted.length = q.1 ∧ p ∈ (ofEntries es₁).waiting := by
      intro hq hp
      obtain ⟨es₁, es₂, rfl, hlen, hw⟩ := ih hes hq hp
      exact ⟨es₁, es₂ ++ [e], by simp, hlen, hw⟩
    rw [ofEntries_snoc] at hq hp
    cases e with
    | direct a c =>
      rcases List.mem_append.mp hq with hq | hq
      · exact extend hq hp
      · simp only [List.mem_singleton, Prod.mk.injEq] at hq
        obtain ⟨hn, rfl, rfl⟩ := hq
        exact ⟨es, [], rfl, hn.symm, hp⟩
    | wait a =>
      have hlen := (List.getElem?_eq_some_iff.mp ((ofEntries es).sent_item _ hq)).1
      rcases List.mem_append.mp hp with hp | hp
      · exact extend hq hp
      · obtain rfl := List.mem_singleton.mp hp
        exact absurd hlt (Nat.not_lt.mpr (Nat.le_of_lt hlen))
    | release k c =>
      cases hk : (ofEntries es).waiting[k]? with
      | none =>
        rw [record, release_of_none c hk] at hq hp
        exact extend hq hp
      | some t =>
        obtain ⟨-, hw, hs⟩ := release_of_getElem? c hk
        rw [record, hw] at hp
        rw [record, hs] at hq
        have hp' := List.mem_of_mem_eraseIdx hp
        rcases List.mem_append.mp hq with hq | hq
        · exact extend hq hp'
        -- the released ticket is the first of its key, so no older one of that key waits
        · simp only [List.mem_singleton, Prod.mk.injEq] at hq
          obtain ⟨hn, hitem, rfl⟩ := hq
          have hearly := mem_take_of_lt (ofEntries es).sorted hk hp' (hn ▸ hlt)
          exact absurd (hkey.trans (congrArg key hitem)) (he t hk p hearly)

end Ledger
