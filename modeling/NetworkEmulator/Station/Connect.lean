import NetworkEmulator.Foundation.Stream
import NetworkEmulator.Station.Start

namespace NetworkEmulator.Station

open Layout

-- the literals with the NUL that sizeof counts
def greeting : Bytes := [65, 99, 99, 101, 112, 116, 101, 100, 0]

def rejection : Bytes := [82, 101, 106, 101, 99, 116, 101, 100, 0]

-- what a read on the socket finds: the greeting and the bytes that have come in behind it, the
-- rejection, or nothing
inductive Answer where
  | accepted (behind : Bytes)
  | rejected
  | unanswered

def Answer.chunk : Answer → Option (Chunk msgSize)
  | .accepted behind =>
    some ⟨(greeting ++ behind).take msgSize, by simp [greeting, msgSize], List.length_take_le _ _⟩
  | .rejected => some ⟨rejection, by decide, by decide⟩
  | .unanswered => none

structure Peer where
  iface : IfaceSocketPair
  answers : Fin 5 → Answer

-- strcmp(msg, "Accepted") == 0
def isAccepted (msg : Buffer msgSize) : Bool := msg.bytes.take 9 = greeting

structure Greeted where
  accepted : Bool
  msg : Buffer msgSize
  taken : Bytes

def greet (msg : Buffer msgSize) (taken : Bytes) : List Answer → Greeted
  | [] => ⟨false, msg, taken⟩
  | a :: answers =>
    match a.chunk with
    | none => greet msg taken answers
    | some c =>
      if isAccepted (msg.overlay c) then ⟨true, msg.overlay c, taken ++ c.bytes⟩
      else greet (msg.overlay c) (taken ++ c.bytes) answers

-- log has the interfaces that connect was called for, each with the bytes read from it
structure Connecting where
  ifaces : List Peer
  msg : Buffer msgSize
  log : List (Peer × Bytes)

def attempt (s : Connecting) (i : Nat) (p : Peer) : Connecting :=
  let r := greet s.msg [] (List.ofFn p.answers)
  { ifaces := if r.accepted then s.ifaces else s.ifaces.eraseIdx i
    msg := r.msg
    log := s.log ++ [(p, r.taken)] }

theorem attempt_length (s : Connecting) (i : Nat) (p : Peer) :
    (attempt s i p).ifaces.length ≤ s.ifaces.length := by
  unfold attempt
  simp only
  split
  · exact Nat.le_refl _
  · exact List.length_eraseIdx_le _ _

-- the index goes on after an erase too
def connectFrom (i : Nat) (s : Connecting) : Connecting :=
  if h : i < s.ifaces.length then connectFrom (i + 1) (attempt s i (s.ifaces.get ⟨i, h⟩)) else s
termination_by s.ifaces.length - i
decreasing_by
  have hle := attempt_length s i (s.ifaces.get ⟨i, h⟩)
  omega

def connectAll (msg : Buffer msgSize) (peers : List Peer) : Connecting :=
  connectFrom 0 ⟨peers, msg, []⟩

def Answer.isGreeting : Answer → Bool
  | .accepted _ => true
  | .rejected | .unanswered => false

def Peer.accepts (p : Peer) : Bool := (List.ofFn p.answers).any Answer.isGreeting

structure Connected (peers : List Peer) (s : Connecting) : Prop where
  attempted : s.log.map Prod.fst = peers
  kept : s.ifaces = peers.filter Peer.accepts

def kept : List Peer → List Peer
  | [] => []
  | [p] => if p.accepts then [p] else []
  | p :: q :: rest => if p.accepts then p :: kept (q :: rest) else q :: kept rest

def tried : List Peer → List Peer
  | [] => []
  | [p] => [p]
  | p :: q :: rest => if p.accepts then p :: tried (q :: rest) else p :: tried rest

variable {msg : Buffer msgSize} {p : Peer} {peers done rest : List Peer} {log : List (Peer × Bytes)}

theorem isAccepted_of_accepted {behind : Bytes} {c : Chunk msgSize}
    (hc : (Answer.accepted behind).chunk = some c) : isAccepted (msg.overlay c) = true := by
  obtain rfl := Option.some.inj hc
  have hlen : 9 ≤ ((greeting ++ behind).take msgSize).length := by
    simp [greeting, msgSize]
  have hmin : min 9 msgSize = 9 := by decide
  simp only [isAccepted, Buffer.overlay, List.take_append_of_le_length hlen, List.take_take, hmin,
    decide_eq_true_eq]
  exact List.take_left' rfl

theorem not_isAccepted_of_rejected {c : Chunk msgSize} (hc : Answer.rejected.chunk = some c) :
    isAccepted (msg.overlay c) = false := by
  obtain rfl := Option.some.inj hc
  rfl

theorem greet_accepted (taken : Bytes) (answers : List Answer) :
    (greet msg taken answers).accepted = answers.any Answer.isGreeting := by
  induction answers generalizing msg taken with
  | nil => rfl
  | cons a answers ih =>
    rw [List.any_cons, greet]
    cases hc : a.chunk with
    | none =>
      cases a with
      | unanswered => exact ih taken
      | accepted | rejected => cases hc
    | some c =>
      cases a with
      | accepted behind =>
        simp only [isAccepted_of_accepted hc, if_true]
        rfl
      | rejected =>
        simp only [not_isAccepted_of_rejected hc, Bool.false_eq_true, if_false]
        exact ih _
      | unanswered => cases hc

theorem connectFrom_cons (i : Nat) (hi : done.length = i) :
    connectFrom i ⟨done ++ p :: rest, msg, log⟩ =
      connectFrom (i + 1) ⟨if p.accepts then done ++ p :: rest else done ++ rest,
        (greet msg [] (List.ofFn p.answers)).msg,
        log ++ [(p, (greet msg [] (List.ofFn p.answers)).taken)]⟩ := by
  subst hi
  have hlt : done.length < (done ++ p :: rest).length := by simp
  have hget : (done ++ p :: rest).get ⟨done.length, hlt⟩ = p := by simp
  have herase : (done ++ p :: rest).eraseIdx done.length = done ++ rest := by
    rw [List.eraseIdx_append_of_length_le (Nat.le_refl _)]
    simp
  rw [connectFrom, dif_pos hlt, hget]
  simp only [attempt, greet_accepted, herase, Peer.accepts]
  rfl

theorem connectFrom_nil (i : Nat) (hi : done.length ≤ i) (s : Connecting) (hs : s.ifaces = done) :
    connectFrom i s = s := by
  rw [connectFrom, dif_neg]
  rw [hs]
  omega

theorem connectFrom_spec (rest done : List Peer) (msg : Buffer msgSize)
    (log : List (Peer × Bytes)) :
    (connectFrom done.length ⟨done ++ rest, msg, log⟩).ifaces = done ++ kept rest ∧
      (connectFrom done.length ⟨done ++ rest, msg, log⟩).log.map Prod.fst =
        log.map Prod.fst ++ tried rest := by
  induction rest using kept.induct generalizing done msg log with
  | case1 =>
    rw [connectFrom_nil _ (Nat.le_refl _) _ (List.append_nil done)]
    simp [kept, tried]
  | case2 p hp =>
    rw [connectFrom_cons _ rfl, if_pos hp, connectFrom_nil _ (by simp) _ rfl]
    simp [kept, tried, hp]
  | case3 p hp =>
    rw [connectFrom_cons _ rfl, if_neg hp, connectFrom_nil _ (by simp) _ rfl]
    simp [kept, tried, hp]
  | case4 p q rest hp ih =>
    have hlen : done.length + 1 = (done ++ [p]).length := by simp
    rw [connectFrom_cons _ rfl, if_pos hp, List.append_cons, hlen]
    have hrest := ih (done ++ [p]) (greet msg [] (List.ofFn p.answers)).msg
      (log ++ [(p, (greet msg [] (List.ofFn p.answers)).taken)])
    rw [hrest.1, hrest.2]
    simp [kept, tried, hp]
  | case5 p q rest hp ih =>
    have hlen : done.length + 1 = (done ++ [q]).length := by simp
    rw [connectFrom_cons _ rfl, if_neg hp, List.append_cons, hlen]
    have hrest := ih (done ++ [q]) (greet msg [] (List.ofFn p.answers)).msg
      (log ++ [(p, (greet msg [] (List.ofFn p.answers)).taken)])
    rw [hrest.1, hrest.2]
    simp [kept, tried, hp]

theorem connectAll_spec (msg : Buffer msgSize) (peers : List Peer) :
    (connectAll msg peers).ifaces = kept peers ∧
      (connectAll msg peers).log.map Prod.fst = tried peers :=
  connectFrom_spec peers [] msg []

theorem kept_sublist (peers : List Peer) : (kept peers).Sublist peers := by
  induction peers using kept.induct with
  | case1 => exact List.Sublist.refl _
  | case2 p hp => simp [kept, hp]
  | case3 p hp => simp [kept, hp]
  | case4 p q rest hp ih =>
    rw [kept, if_pos hp]
    exact ih.cons_cons p
  | case5 p q rest hp ih =>
    rw [kept, if_neg hp]
    exact (ih.cons_cons q).cons p

theorem tried_sublist (peers : List Peer) : (tried peers).Sublist peers := by
  induction peers using kept.induct with
  | case1 => exact List.Sublist.refl _
  | case2 p hp => simp [tried]
  | case3 p hp => simp [tried]
  | case4 p q rest hp ih =>
    rw [tried, if_pos hp]
    exact ih.cons_cons p
  | case5 p q rest hp ih =>
    rw [tried, if_neg hp]
    exact (ih.cons q).cons_cons p

theorem tried_length (peers : List Peer) : (tried peers).length ≤ peers.length := by
  induction peers using kept.induct with
  | case1 => exact Nat.le_refl _
  | case2 | case3 => exact Nat.le_refl _
  | case4 p q rest hp ih =>
    simp only [tried, hp, if_true, List.length_cons] at ih ⊢
    omega
  | case5 p q rest hp ih =>
    simp only [tried, hp, if_false, Bool.false_eq_true, List.length_cons] at ih ⊢
    omega

theorem tried_eq_iff : tried peers = peers ∧ kept peers = peers.filter Peer.accepts ↔
    ∀ p ∈ peers.dropLast, p.accepts = true := by
  induction peers using kept.induct with
  | case1 => simp [tried, kept]
  | case2 p hp => simp [tried, kept, hp]
  | case3 p hp => simp [tried, kept, hp]
  | case4 p q rest hp ih =>
    simp only [tried, kept, hp, if_true, List.cons.injEq, true_and, List.filter_cons_of_pos,
      List.dropLast_cons_cons, List.forall_mem_cons]
    exact ih
  | case5 p q rest hp ih =>
    refine iff_of_false ?_ (by simp [hp])
    rintro ⟨htried, -⟩
    have hlen := congrArg List.length htried
    have hle := tried_length rest
    simp only [tried, hp, if_false, Bool.false_eq_true, List.length_cons] at hlen
    omega

theorem connected_eq (msg : Buffer msgSize) (peers : List Peer) :
    Connected peers (connectAll msg peers) ↔
      tried peers = peers ∧ kept peers = peers.filter Peer.accepts := by
  obtain ⟨hifaces, hlog⟩ := connectAll_spec msg peers
  constructor
  · intro hc
    exact ⟨hlog.symm.trans hc.attempted, hifaces.symm.trans hc.kept⟩
  · rintro ⟨htried, hkept⟩
    exact ⟨hlog.trans htried, hifaces.trans hkept⟩

theorem accepted_kept_iff (msg : Buffer msgSize) (peers : List Peer) :
    Connected peers (connectAll msg peers) ↔ ∀ p ∈ peers.dropLast, p.accepts = true := by
  rw [connected_eq, tried_eq_iff]

theorem taken_of_log {i : Nat} {s : Connecting} {e : Peer × Bytes}
    (he : e ∈ (connectFrom i s).log) :
    e ∈ s.log ∨ ∃ msg, e.2 = (greet msg [] (List.ofFn e.1.answers)).taken := by
  induction i, s using connectFrom.induct with
  | case1 i s hi ih =>
    rw [connectFrom, dif_pos hi] at he
    rcases ih he with hold | hnew
    · rcases List.mem_append.mp hold with hold | hnew
      · exact Or.inl hold
      · obtain rfl := List.mem_singleton.mp hnew
        exact Or.inr ⟨s.msg, rfl⟩
    · exact Or.inr hnew
  | case2 i s hi =>
    rw [connectFrom, dif_neg hi] at he
    exact Or.inl he

theorem log_grows (i : Nat) (s : Connecting) : s.log ⊆ (connectFrom i s).log := by
  induction i, s using connectFrom.induct with
  | case1 i s hi ih =>
    rw [connectFrom, dif_pos hi]
    intro e he
    exact ih (List.mem_append_left _ he)
  | case2 i s hi =>
    rw [connectFrom, dif_neg hi]
    exact List.Subset.refl _

theorem attempted_first (msg : Buffer msgSize) (p : Peer) (rest : List Peer) :
    (p, (greet msg [] (List.ofFn p.answers)).taken) ∈ (connectAll msg (p :: rest)).log := by
  have hlt : 0 < (⟨p :: rest, msg, []⟩ : Connecting).ifaces.length := Nat.zero_lt_succ _
  rw [connectAll, connectFrom, dif_pos hlt]
  apply log_grows
  simp [attempt]

theorem greet_unanswered {as bs : List Answer} (taken : Bytes) (has : ∀ a ∈ as, a = .unanswered) :
    greet msg taken (as ++ bs) = greet msg taken bs := by
  induction as with
  | nil => rfl
  | cons a as ih =>
    obtain ⟨rfl, htail⟩ := List.forall_mem_cons.mp has
    exact ih htail

theorem greet_found {behind : Bytes} (answers : List Answer) :
    (greet msg [] (.accepted behind :: answers)).taken = (greeting ++ behind).take msgSize := by
  rw [greet]
  simp only [Answer.chunk, isAccepted_of_accepted rfl, if_true, List.nil_append]

theorem taken_of_accepted {j : Fin 5} {behind : Bytes} (hj : p.answers j = .accepted behind)
    (hbefore : ∀ k < j, p.answers k = .unanswered) :
    (greet msg [] (List.ofFn p.answers)).taken = (greeting ++ behind).take msgSize := by
  have hlt : j.val < (List.ofFn p.answers).length := by simp
  have hget : (List.ofFn p.answers)[j.val] = .accepted behind := by
    rw [List.getElem_ofFn]
    exact hj
  rw [← List.take_append_drop j.val (List.ofFn p.answers), List.drop_eq_getElem_cons hlt, hget,
    greet_unanswered, greet_found]
  intro a ha
  obtain ⟨n, hn, rfl⟩ := List.getElem_of_mem ha
  rw [List.length_take, lt_min_iff] at hn
  rw [List.getElem_take, List.getElem_ofFn]
  exact hbefore _ hn.1

def refusing : Peer := ⟨(ifaceR1, ⟨3⟩), fun _ => .rejected⟩

def accepting : Peer := ⟨(ifaceR2, ⟨4⟩), fun _ => .accepted []⟩

-- the interface behind a refused one is never connected, and kept whatever its bridge would answer
theorem refused_hides_next :
    ¬ ∀ (msg : Buffer msgSize) (peers : List Peer), Connected peers (connectAll msg peers) := by
  intro hall
  have htried := ((connected_eq _ _).mp (hall (.zero _) [refusing, accepting])).1
  have hlen : (tried [refusing, accepting]).length = 1 := by decide
  rw [htried] at hlen
  exact absurd hlen (by decide)

end NetworkEmulator.Station
