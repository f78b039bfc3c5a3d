import NetworkEmulator.Foundation.Lines
import NetworkEmulator.Station.Start
import Mathlib.Data.List.TakeWhile

namespace NetworkEmulator.Station

open Transition

variable {cfg : Config} {ms : List (Move State Event Out)} {mv : Move State Event Out}
  {s s' : State} {st st' : Store} {h out : List Out} {u : Uninit} {bytes cmd line : List Char}

def ranLine (bytes : List Char) : Option (List Char) :=
  (cString bytes).toOption.map (fun cmd => cmd.takeWhile (· ≠ '\n'))

def chunkOf (mv : Move State Event Out) : Option (List Char) :=
  match mv.event with
  | .stdin bytes _ => bytes
  | _ => none

def Out.commandLine : Out → Option String
  | .command line => some line
  | _ => none

def handed (cfg : Config) (line : List Char) : Option (String × String) :=
  if line = "debug".toList ∨ line = "off".toList then none
  else
    let (buf, rest) := extract line
    if buf = "send".toList ∧ cfg.isRouter = false then
      let (dst, msg) := extract rest
      some (String.ofList dst, String.ofList msg)
    else none

def SendLine (line dst msg : List Char) : Prop :=
  line = "send ".toList ++ (dst ++ ' ' :: msg) ∧ dst ≠ [] ∧ ∀ c ∈ dst, Routing.isSpace c = false

structure RunsLines (cfg : Config) (ms : List (Move State Event Out)) (lines : List (List Char)) :
    Prop where
  executed : Lines.ran ranLine 0 (ms.filterMap chunkOf) = Lines.placed 0 lines
  handed : cfg.isRouter = false → ∀ l ∈ lines, ∀ dst msg, SendLine l dst msg →
    handed cfg l = some (String.ofList dst, String.ofList msg)

theorem menuCommands_eq : menuCommands cfg st u cmd =
    match handed cfg (cmd.takeWhile (· ≠ '\n')) with
    | none => .ok ⟨st, cmd.takeWhile (· ≠ '\n') = "off".toList,
        [.command (String.ofList (cmd.takeWhile (· ≠ '\n')))]⟩
    | some (dst, msg) => sendCmd cfg st u dst msg >>= fun r =>
        .ok ⟨r.1, false, .command (String.ofList (cmd.takeWhile (· ≠ '\n'))) :: r.2⟩ := by
  unfold menuCommands handed
  generalize cmd.takeWhile (· ≠ '\n') = line
  by_cases hdebug : line = "debug".toList
  · subst hdebug
    rfl
  · by_cases hoff : line = "off".toList
    · subst hoff
      rfl
    · simp only [hdebug, hoff, or_self, if_false, decide_false]
      split
      · rfl
      · rfl

theorem commandLine_sends {srcIp dstIp : IPAddr} {data : String}
    (hs : Sends cfg st srcIp dstIp data st' out) : out.filterMap Out.commandLine = [] := by
  cases hs with
  | cached | queued => rfl

theorem commandLine_sendCmd {dst msg : String} {r : Store × List Out}
    (hr : sendCmd cfg st u dst msg = .ok r) : r.2.filterMap Out.commandLine = [] := by
  unfold sendCmd at hr
  split at hr
  · obtain rfl := Except.ok.inj hr
    rfl
  · exact commandLine_sends (sends_of_sendEtherPkt hr)

theorem commandLine_menu {m : Menu} (hm : menuCommands cfg st u cmd = .ok m) :
    m.out.filterMap Out.commandLine = [String.ofList (cmd.takeWhile (· ≠ '\n'))] := by
  rw [menuCommands_eq] at hm
  split at hm
  · obtain rfl := Except.ok.inj hm
    rfl
  · obtain ⟨r, hr, hm⟩ := Fault.bind_ok hm
    obtain rfl := Except.ok.inj hm
    exact congrArg (_ :: ·) (commandLine_sendCmd hr)

theorem cString_eq_ok : cString bytes = .ok cmd ↔
    bytes.takeWhile (· ≠ '\x00') = cmd ∧ cmd.length < msgSize := by
  unfold cString
  simp only
  split
  · rename_i hlen
    rw [Except.ok.injEq]
    exact ⟨fun heq => ⟨heq, heq ▸ hlen⟩, And.left⟩
  · rename_i hlen
    refine iff_of_false nofun ?_
    rintro ⟨rfl, hlt⟩
    exact hlen hlt

theorem ranLine_eq_some : ranLine bytes = some line ↔
    ∃ cmd, cString bytes = .ok cmd ∧ cmd.takeWhile (· ≠ '\n') = line := by
  rw [ranLine]
  cases cString bytes <;> simp [Except.toOption]

theorem ranLine_prefix (hr : ranLine bytes = some line) : line <+: bytes := by
  obtain ⟨cmd, hc, rfl⟩ := ranLine_eq_some.mp hr
  obtain ⟨rfl, -⟩ := cString_eq_ok.mp hc
  exact (List.takeWhile_prefix _).trans (List.takeWhile_prefix _)

theorem ranLine_none (hr : ranLine bytes = none) : 2 ≤ bytes.length := by
  have hlong : ¬ (bytes.takeWhile (· ≠ '\x00')).length < msgSize := by
    intro hlen
    have hsome := ranLine_eq_some.mpr ⟨_, cString_eq_ok.mpr ⟨rfl, hlen⟩, rfl⟩
    cases hr.symm.trans hsome
  have hle := (List.takeWhile_prefix (· ≠ '\x00') (l := bytes)).length_le
  unfold msgSize at hlong
  omega

theorem takeWhile_ne_eq {a : Char} (hl : a ∉ line) (rest : List Char) :
    (line ++ a :: rest).takeWhile (· ≠ a) = line := by
  rw [List.takeWhile_append_of_pos fun c hc => by simpa using ne_of_mem_of_not_mem hc hl]
  simp

theorem takeWhile_line (hno : '\x00' ∉ line) :
    (line ++ ['\n']).takeWhile (· ≠ '\x00') = line ++ ['\n'] := by
  refine List.takeWhile_eq_self_iff.mpr fun c hc => ?_
  rcases List.mem_append.mp hc with hc | hc
  · simpa using ne_of_mem_of_not_mem hc hno
  · simp [List.mem_singleton.mp hc]

theorem ranLine_line (hl : '\n' ∉ line) : ranLine (line ++ ['\n']) = some line ↔
    line.length + 1 < msgSize ∧ '\x00' ∉ line := by
  rw [ranLine_eq_some]
  constructor
  · rintro ⟨cmd, hc, hline⟩
    obtain ⟨rfl, hlen⟩ := cString_eq_ok.mp hc
    have hno : '\x00' ∉ line := by
      intro hmem
      rw [← hline] at hmem
      have hmem' := (List.takeWhile_prefix _).subset hmem
      simpa using List.mem_takeWhile_imp hmem'
    rw [takeWhile_line hno, List.length_append, List.length_singleton] at hlen
    exact ⟨hlen, hno⟩
  · rintro ⟨hlen, hno⟩
    refine ⟨line ++ ['\n'], cString_eq_ok.mpr ⟨takeWhile_line hno, ?_⟩, takeWhile_ne_eq hl []⟩
    rw [List.length_append, List.length_singleton]
    exact hlen

theorem extract_word {word rest : List Char} (hne : word ≠ [])
    (hw : ∀ c ∈ word, Routing.isSpace c = false) :
    extract (word ++ ' ' :: rest) = (word, ' ' :: rest) := by
  have hdrop : (word ++ ' ' :: rest).dropWhile Routing.isSpace = word ++ ' ' :: rest := by
    cases word with
    | nil => exact absurd rfl hne
    | cons c word => simp [hw c List.mem_cons_self]
  have hspace : Routing.isSpace ' ' = true := by decide
  have hword : ∀ c ∈ word, (!Routing.isSpace c) = true := fun c hc => by simp [hw c hc]
  simp only [extract, hdrop]
  rw [List.takeWhile_append_of_pos hword, List.dropWhile_append_of_pos hword]
  simp [hspace]

theorem extract_blank (s : List Char) : extract (' ' :: s) = extract s := by
  have hspace : Routing.isSpace ' ' = true := by decide
  simp [extract, hspace]

-- getline leaves the blank in front of the message
theorem handed_sendLine {dst msg : List Char} (hl : SendLine line dst msg)
    (hhost : cfg.isRouter = false) :
    handed cfg line = some (String.ofList dst, String.ofList (' ' :: msg)) := by
  obtain ⟨rfl, hne, hdst⟩ := hl
  have hline : "send ".toList ++ (dst ++ ' ' :: msg) =
      "send".toList ++ ' ' :: (dst ++ ' ' :: msg) := rfl
  have hbuf : extract ("send ".toList ++ (dst ++ ' ' :: msg)) =
      ("send".toList, ' ' :: (dst ++ ' ' :: msg)) := by
    rw [hline]
    exact extract_word (by decide) (by simp [Routing.isSpace])
  have hneither : ¬ ("send ".toList ++ (dst ++ ' ' :: msg) = "debug".toList ∨
      "send ".toList ++ (dst ++ ' ' :: msg) = "off".toList) := by
    rw [hline]
    simp
  simp only [handed, hneither, if_false, hbuf, hhost, and_self, if_true, extract_blank,
    extract_word hne hdst]

theorem read_of_chunk (p : Path (machine cfg) ms s h) (hmv : mv ∈ ms) {c : List Char}
    (hc : chunkOf mv = some c) :
    ∃ u, readStdin cfg mv.before u (some c) = some (mv.after, mv.out) := by
  obtain ⟨_, -, -, hs⟩ := p.before hmv
  change step cfg mv.before mv.event = _ at hs
  unfold chunkOf at hc
  split at hc
  · rename_i bytes u hev
    subst hc
    rw [hev] at hs
    generalize (mv.after, mv.out) = post at hs ⊢
    obtain ⟨s', out⟩ := post
    cases turn_of_step hs with
    | stdin _ _ _ hr => exact ⟨u, hr⟩
  · cases hc

theorem chunk_ne_nil (p : Path (machine cfg) ms s h) : ∀ c ∈ ms.filterMap chunkOf, c ≠ [] := by
  rintro c hc rfl
  obtain ⟨mv, hmv, hchunk⟩ := List.mem_filterMap.mp hc
  obtain ⟨u, hr⟩ := read_of_chunk p hmv hchunk
  cases hr

theorem commandLine_of_chunk (p : Path (machine cfg) ms s h) (hmv : mv ∈ ms) {c : List Char}
    (hc : chunkOf mv = some c) (hf : ∀ f, mv.after.pc ≠ .fault f) :
    ∃ line, ranLine c = some line ∧
      mv.out.filterMap Out.commandLine = [String.ofList line] := by
  obtain ⟨u, hr⟩ := read_of_chunk p hmv hc
  simp only [readStdin] at hr
  split at hr
  · split at hr
    · obtain ⟨hafter, -⟩ := Prod.mk.inj (Option.some.inj hr)
      exact absurd (congrArg State.pc hafter).symm (hf _)
    · rename_i m hm
      obtain ⟨-, hout⟩ := Prod.mk.inj (Option.some.inj hr)
      obtain ⟨cmd, hcmd, hmenu⟩ := Fault.bind_ok hm
      exact ⟨_, ranLine_eq_some.mpr ⟨cmd, hcmd, rfl⟩, hout ▸ commandLine_menu hmenu⟩
  · cases hr

variable {lines : List (List Char)}

theorem executed_iff (p : Path (machine cfg) ms s h) (hlines : ∀ l ∈ lines, '\n' ∉ l)
    (hin : (ms.filterMap chunkOf).flatten = Lines.unlines '\n' lines) :
    Lines.ran ranLine 0 (ms.filterMap chunkOf) = Lines.placed 0 lines ↔
      ms.filterMap chunkOf = lines.map (fun l => l ++ ['\n']) ∧
        ∀ l ∈ lines, l.length + 1 < msgSize ∧ '\x00' ∉ l := by
  have hpre : ∀ c t, ranLine c = some t → t <+: c := fun _ _ h => ranLine_prefix h
  have hnone : ∀ c, ranLine c = none → 2 ≤ c.length := fun _ h => ranLine_none h
  rw [Lines.ran_eq_placed_iff hpre hnone (chunk_ne_nil p) hin]
  refine and_congr_right fun _ => forall₂_congr fun l hl => ranLine_line (hlines l hl)

theorem handed_iff : (cfg.isRouter = false → ∀ l ∈ lines, ∀ dst msg, SendLine l dst msg →
      handed cfg l = some (String.ofList dst, String.ofList msg)) ↔
    (cfg.isRouter = false → ∀ l ∈ lines, ∀ dst msg, ¬ SendLine l dst msg) := by
  refine forall_congr' fun hhost => forall₂_congr fun l _ => forall₂_congr fun dst msg => ?_
  refine imp_congr_right fun hl => iff_of_false ?_ id
  rw [handed_sendLine hl hhost]
  simp

theorem console_lines_iff (p : Path (machine cfg) ms s h) (hlines : ∀ l ∈ lines, '\n' ∉ l)
    (hin : (ms.filterMap chunkOf).flatten = Lines.unlines '\n' lines) :
    (RunsLines cfg ms lines ↔
      (ms.filterMap chunkOf = lines.map (fun l => l ++ ['\n']) ∧
          ∀ l ∈ lines, l.length + 1 < msgSize ∧ '\x00' ∉ l) ∧
        (cfg.isRouter = false → ∀ l ∈ lines, ∀ dst msg, ¬ SendLine l dst msg)) ∧
      ∀ mv ∈ ms, ∀ c, chunkOf mv = some c → (∀ f, mv.after.pc ≠ .fault f) →
        ∃ line, ranLine c = some line ∧
          mv.out.filterMap Out.commandLine = [String.ofList line] := by
  refine ⟨?_, fun mv hmv c hc hf => commandLine_of_chunk p hmv hc hf⟩
  rw [← executed_iff p hlines hin, ← handed_iff]
  exact ⟨fun hr => ⟨hr.executed, hr.handed⟩, fun ⟨he, hh⟩ => ⟨he, hh⟩⟩

def shownArp : List (List Char) := ["show arp".toList]

theorem console_lines_iff_shown :
    (RunsLines hostA ((machine hostA).moves (typed "show arp\n")) shownArp ↔
      (((machine hostA).moves (typed "show arp\n")).filterMap chunkOf =
          shownArp.map (fun l => l ++ ['\n']) ∧
          ∀ l ∈ shownArp, l.length + 1 < msgSize ∧ '\x00' ∉ l) ∧
        (hostA.isRouter = false → ∀ l ∈ shownArp, ∀ dst msg, ¬ SendLine l dst msg)) ∧
      ∀ mv ∈ (machine hostA).moves (typed "show arp\n"), ∀ c, chunkOf mv = some c →
        (∀ f, mv.after.pc ≠ .fault f) →
        ∃ line, ranLine c = some line ∧
          mv.out.filterMap Out.commandLine = [String.ofList line] :=
  console_lines_iff ((machine hostA).path _ (by decide)) (by decide) (by decide)

def pasted : List (List Char) := ["show arp".toList, "show pq".toList]

-- of two lines that one read takes in, the second is discarded
theorem pasted_line_discarded :
    ¬ ∀ (cfg : Config) (ms : List (Move State Event Out)) (s : State) (h : List Out)
      (lines : List (List Char)), Path (machine cfg) ms s h → (∀ l ∈ lines, '\n' ∉ l) →
      (ms.filterMap chunkOf).flatten = Lines.unlines '\n' lines → RunsLines cfg ms lines := by
  intro hall
  have hp := (machine hostA).path (typed "show arp\nshow pq\n") (by decide)
  have hr := hall hostA _ _ _ pasted hp (by decide) (by decide)
  exact absurd hr.executed (by decide)

end NetworkEmulator.Station
