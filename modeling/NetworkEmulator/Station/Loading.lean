import NetworkEmulator.Foundation.Lines
import NetworkEmulator.Station.LongestPrefix

namespace NetworkEmulator.Station

open Routing

-- the lines that std::getline reads; a newline at the very end begins no further line
def getlines : List Char → List (List Char)
  | [] => []
  | c :: s =>
    (c :: s).takeWhile (· ≠ '\n') :: getlines (((c :: s).dropWhile (· ≠ '\n')).drop 1)
termination_by s => s.length
decreasing_by
  have hle := (List.dropWhile_suffix (fun a => decide (a ≠ '\n')) (l := c :: s)).length_le
  simp only [List.length_cons, List.length_drop] at *
  omega

def loadRoutes (file : List Char) : List Rtable := (getlines file).map loadRoute

def DottedQuad (addr : IPAddr) : Prop := ∃ o, Denotes addr o

structure WellFormedRoute (r : Rtable) : Prop where
  destAddr : DottedQuad r.destAddr
  netMask : DottedQuad r.netMask
  nextHop : r.nextHop ≠ ""
  ifaceName : r.ifaceName ≠ ""

structure ArmsNothing (file : List Char) : Prop where
  routes : ∀ r ∈ loadRoutes file, WellFormedRoute r
  lookups : ∀ dst, DottedQuad dst → ∃ nextHop, getNextHop (loadRoutes file) dst = .ok nextHop

def words (line : List Char) : List (List Char) := (line.splitOnP isSpace).filter (· ≠ [])

def RouteLine (line : List Char) : Prop :=
  ∃ d n m i rest, words line = d :: n :: m :: i :: rest ∧
    DottedQuad (String.ofList d) ∧ DottedQuad (String.ofList m)

variable {line s w : List Char} {file : List Char} {lines : List (List Char)} {dst : IPAddr}

theorem getlines_cons (hl : '\n' ∉ line) : getlines (line ++ '\n' :: s) = line :: getlines s := by
  have hmem : ∀ c ∈ line, decide (c ≠ '\n') = true :=
    fun c hc => by simpa using ne_of_mem_of_not_mem hc hl
  have htake : (line ++ '\n' :: s).takeWhile (· ≠ '\n') = line := by
    rw [List.takeWhile_append_of_pos hmem]
    simp
  have hdrop : ((line ++ '\n' :: s).dropWhile (· ≠ '\n')).drop 1 = s := by
    rw [List.dropWhile_append_of_pos hmem]
    simp
  have hcons : getlines (line ++ '\n' :: s) = (line ++ '\n' :: s).takeWhile (· ≠ '\n') ::
      getlines (((line ++ '\n' :: s).dropWhile (· ≠ '\n')).drop 1) := by
    cases line with
    | nil => rw [List.nil_append, getlines]
    | cons c line => rw [List.cons_append, getlines]
  rw [hcons, htake, hdrop]

theorem getlines_unlines (hl : ∀ l ∈ lines, '\n' ∉ l) :
    getlines (Lines.unlines '\n' lines) = lines := by
  induction lines with
  | nil => simp [Lines.unlines, getlines]
  | cons l lines ih =>
    obtain ⟨hhead, htail⟩ := List.forall_mem_cons.mp hl
    rw [Lines.unlines_cons, getlines_cons hhead, ih htail]

theorem words_space {c : Char} (hc : isSpace c = true) : words (c :: s) = words s := by
  simp [words, List.splitOnP_cons_eq_if_modifyHead, hc]

theorem words_dropWhile : words (s.dropWhile isSpace) = words s := by
  induction s with
  | nil => rfl
  | cons c s ih =>
    cases hc : isSpace c with
    | true => rw [List.dropWhile_cons_of_pos hc, ih, words_space hc]
    | false => rw [List.dropWhile_cons_of_neg (by simp [hc])]

theorem words_word (hne : w ≠ []) (hw : ∀ c ∈ w, isSpace c = false) : words w = [w] := by
  rw [words, List.splitOnP_eq_singleton hw]
  simp [hne]

theorem words_append {c : Char} (hne : w ≠ []) (hw : ∀ c ∈ w, isSpace c = false)
    (hc : isSpace c = true) : words (w ++ c :: s) = w :: words s := by
  rw [words, List.splitOnP_append_cons_of_forall_mem hw c hc, List.filter_cons_of_pos (by simpa)]
  rfl

theorem extract_words : (extract s).1 = [] ∧ words s = [] ∨
    (extract s).1 ≠ [] ∧ words s = (extract s).1 :: words (extract s).2 := by
  rw [← words_dropWhile]
  unfold extract
  simp only
  cases hs : s.dropWhile isSpace with
  | nil => exact Or.inl ⟨rfl, rfl⟩
  | cons c t =>
    have hc : isSpace c = false := by
      have hhead := List.head?_dropWhile_not isSpace s
      simpa [hs] using hhead
    have hne : (c :: t).takeWhile (!isSpace ·) ≠ [] := by simp [hc]
    have hword : ∀ a ∈ (c :: t).takeWhile (!isSpace ·), isSpace a = false :=
      fun a ha => by simpa using List.mem_takeWhile_imp ha
    refine Or.inr ⟨hne, ?_⟩
    have hsplit := List.takeWhile_append_dropWhile (p := (!isSpace ·)) (l := c :: t)
    cases hd : (c :: t).dropWhile (!isSpace ·) with
    | nil =>
      rw [hd, List.append_nil] at hsplit
      conv_lhs => rw [← hsplit]
      exact words_word hne hword
    | cons a rest =>
      have ha : isSpace a = true := by
        have hhead := List.head?_dropWhile_not (!isSpace ·) (c :: t)
        simpa [hd] using hhead
      rw [hd] at hsplit
      conv_lhs => rw [← hsplit]
      rw [words_append hne hword ha, words_space ha]

theorem extract_head : (extract s).1 = (words s).headD [] := by
  rcases extract_words (s := s) with ⟨hnil, hwords⟩ | ⟨-, hwords⟩
  · rw [hnil, hwords]
    rfl
  · rw [hwords]
    rfl

theorem extract_tail : words (extract s).2 = (words s).tail := by
  rcases extract_words (s := s) with ⟨hnil, hwords⟩ | ⟨-, hwords⟩
  · rw [extract_nil hnil, hwords]
    rfl
  · rw [hwords]
    rfl

theorem loadRoute_words : loadRoute line =
    { destAddr := String.ofList ((words line).headD [])
      nextHop := String.ofList ((words line).tail.headD [])
      netMask := String.ofList ((words line).tail.tail.headD [])
      ifaceName := String.ofList ((words line).tail.tail.tail.headD []) } := by
  simp only [loadRoute, extract_head, extract_tail]

theorem ne_nil_of_mem_words (hw : w ∈ words line) : w ≠ [] := by
  simpa using (List.mem_filter.mp hw).2

theorem wellFormedRoute_iff : WellFormedRoute (loadRoute line) ↔ RouteLine line := by
  have hmem : ∀ w ∈ words line, String.ofList w ≠ "" :=
    fun w hw => by simpa using ne_nil_of_mem_words hw
  unfold RouteLine
  rw [loadRoute_words]
  constructor
  · rintro ⟨hd, hm, -, hi⟩
    match hwords : words line with
    | [] | [_] | [_, _] | [_, _, _] => simp [hwords] at hi
    | d :: n :: m :: i :: rest =>
      rw [hwords] at hd hm
      exact ⟨d, n, m, i, rest, rfl, hd, hm⟩
  · rintro ⟨d, n, m, i, rest, hwords, hd, hm⟩
    rw [hwords] at hmem ⊢
    exact ⟨hd, hm, hmem n (by simp), hmem i (by simp)⟩

theorem DottedQuad.quad (hd : DottedQuad dst) : Quad dst := by
  obtain ⟨o, ho⟩ := hd
  exact confined_iff.mp ho.confined

theorem lookup_of_routes {routes : List Rtable} (hr : ∀ r ∈ routes, WellFormedRoute r)
    (hd : DottedQuad dst) : ∃ nextHop, getNextHop routes dst = .ok nextHop := by
  refine (decides_iff.mpr ⟨hd.quad, ?_⟩).decided
  rintro r ⟨rs₁, rs₂, rfl, -⟩
  obtain ⟨hdest, hmask, -, -⟩ := hr r (by simp)
  exact ⟨hmask.quad, hdest.quad⟩

theorem arms_nothing_iff (file : List Char) :
    ArmsNothing file ↔ ∀ line ∈ getlines file, RouteLine line := by
  constructor
  · intro ha line hline
    exact wellFormedRoute_iff.mp (ha.routes _ (List.mem_map_of_mem hline))
  · intro hlines
    have hroutes : ∀ r ∈ loadRoutes file, WellFormedRoute r := by
      intro r hr
      obtain ⟨line, hline, rfl⟩ := List.mem_map.mp hr
      exact wellFormedRoute_iff.mpr (hlines line hline)
    exact ⟨hroutes, fun dst hd => lookup_of_routes hroutes hd⟩

def endsBlank : List (List Char) := ["128.252.11.0 0.0.0.0 255.255.255.0 R3-cs1".toList, []]

-- a destination on another network takes the scan to the row of the blank line
theorem blank_line_throws : ¬ ∀ file, ArmsNothing file := by
  intro hall
  have hlines : getlines (Lines.unlines '\n' endsBlank) = endsBlank :=
    getlines_unlines (by decide)
  obtain ⟨nextHop, hok⟩ := (hall (Lines.unlines '\n' endsBlank)).lookups "128.252.13.40"
    ⟨quad 128 252 13 40, by decide⟩
  have hthrow : getNextHop (endsBlank.map loadRoute) "128.252.13.40" =
      .error .invalidArgument := by
    decide
  rw [loadRoutes, hlines, hthrow] at hok
  cases hok

end NetworkEmulator.Station
