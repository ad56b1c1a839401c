import TapeGrammar.Proofs.ContextSensitive.Check
import TapeGrammar.Proofs.Room
import TapeGrammar.Proofs.Session.Lines
import TapeGrammar.Proofs.Unrestricted.Check
import TapeGrammar.Session.Program
import TapeGrammar.Storage.Tree

/-!
# Scripts

The commands of a script can also be written into an input, each followed by a line feed, and the
program does the same with both (`run_piped`).

What it writes is put together from what each command writes on its own.  No answer depends on those
before it, so only the end of a session is left to say: a session answers the commands before the
first one that asks for the end, and breaks off with a check that ends in a fault (`reached`).  Such
a check is one of a number for whose word there is no room in memory, or a very long one: the number,
the moves that the machine makes on it, or the report has to be enormous (`fault?_cases`).  Neither a
line that is no command nor a check with another error ends a session.
-/

namespace TapeGrammar

namespace Session

/-! ## 1. Transcripts of single commands -/

/-- One transcript after another.  The exit code is the one of the second, unless that is 0. -/
def Transcript.append (t u : Transcript) : Transcript where
  stdout := t.stdout ++ u.stdout
  stderr := t.stderr ++ u.stderr
  exit := if u.exit = 0 then t.exit else u.exit

instance : Append Transcript := ⟨Transcript.append⟩

theorem Transcript.append_empty_add (t : Transcript) (reply : Reply) :
    t ++ Transcript.empty.add reply = t.add reply := by
  change Transcript.append t _ = _
  unfold Transcript.append Transcript.add Transcript.empty
  by_cases h : reply.ending = some .abort <;> simp [h]

theorem Transcript.add_goodbye (t : Transcript) : t.add .goodbye = t := by
  simp [Transcript.add, Reply.goodbye]

variable {session : Session} {fuel : Nat} {command : String} {commands : List String}

/-- What a session writes when it is given a single command. -/
def alone (session : Session) (fuel : Nat) (command : String) : Option Transcript :=
  session.answer fuel [command] ByteArray.empty .empty

theorem alone_eq (session : Session) (fuel : Nat) (command : String) :
    session.alone fuel command = (session.reply? fuel command).map Transcript.empty.add := by
  simp only [alone, answer, List.isEmpty_cons, Bool.false_eq_true, if_false, List.map_cons,
    List.map_nil, answerLines]
  cases session.reply? fuel command with
  | none => rfl
  | some reply => simp

/-! ## 2. What ends a session -/

/-- The fault in which the check that a command asks for ends. -/
def fault? (session : Session) (fuel : Nat) (command : String) : Option Fault :=
  match Command.parse command with
  | .ok (.check kind n) =>
    match session.check fuel kind n with
    | some (.error (.check (.fault fault))) => some fault
    | _ => none
  | _ => none

/-- The commands that a session answers: those before the first one that asks for the end, and none
behind a check that ends in a fault. -/
def reached (session : Session) (fuel : Nat) : List String → List String
  | [] => []
  | command :: commands =>
    if Command.parse command = .ok .quit then []
    else if (session.fault? fuel command).isSome then [command]
    else command :: reached session fuel commands

theorem reply?_of_quit (h : Command.parse command = .ok .quit) :
    session.reply? fuel command = some .goodbye := by
  simp only [reply?, h]

theorem fault?_eq_some_iff {fault : Fault} : session.fault? fuel command = some fault ↔
    ∃ kind n, Command.parse command = .ok (.check kind n) ∧
      session.check fuel kind n = some (.error (.check (.fault fault))) := by
  unfold fault?
  constructor
  · intro h
    split at h
    · rename_i kind n hcommand
      split at h
      · rename_i hcheck
        cases h
        exact ⟨kind, n, hcommand, hcheck⟩
      · cases h
    · cases h
  · rintro ⟨kind, n, hcommand, hcheck⟩
    simp only [hcommand, hcheck]

theorem reply?_of_fault? {fault : Fault} (h : session.fault? fuel command = some fault) :
    session.reply? fuel command = some .brokenOff := by
  obtain ⟨kind, n, hcommand, hcheck⟩ := fault?_eq_some_iff.mp h
  simp only [reply?, hcommand, hcheck]

/-- A session goes on after any other command. -/
theorem ending_of_reply? (hquit : Command.parse command ≠ .ok .quit)
    (hfault : session.fault? fuel command = none) {reply : Reply}
    (h : session.reply? fuel command = some reply) : reply.ending = none := by
  unfold reply? at h
  split at h
  · cases h
    rfl
  · rename_i hcommand
    exact absurd hcommand hquit
  · rename_i kind n hcommand
    split at h
    · cases h
    · cases h
      rfl
    · rename_i fault hcheck
      have hsome := fault?_eq_some_iff.mpr ⟨kind, n, hcommand, hcheck⟩
      rw [hfault] at hsome
      cases hsome
    · cases h
      rfl

/-- **What a session writes for a script is what each command that it reaches writes on its own.** -/
theorem answer_script (session : Session) (fuel : Nat) (hne : commands ≠ []) (input : ByteArray)
    (t : Transcript) :
    session.answer fuel commands input t =
      ((session.reached fuel commands).mapM (session.alone fuel)).map (List.foldl (· ++ ·) t) := by
  rw [answer, if_neg (by simpa using hne)]
  clear hne
  induction commands generalizing t with
  | nil => rfl
  | cons command commands ih =>
    rw [List.map_cons, answerLines, reached]
    by_cases hquit : Command.parse command = .ok .quit
    · rw [if_pos hquit, reply?_of_quit hquit]
      exact congrArg some t.add_goodbye
    rw [if_neg hquit]
    cases hfault : session.fault? fuel command with
    | some fault =>
      have hreply := reply?_of_fault? hfault
      rw [if_pos Option.isSome_some, List.mapM_cons, List.mapM_nil, alone_eq, hreply]
      exact congrArg some (t.append_empty_add _).symm
    | none =>
      rw [if_neg (by simp), List.mapM_cons, alone_eq]
      cases hreply : session.reply? fuel command with
      | none => rfl
      | some reply =>
        have hending := ending_of_reply? hquit hfault hreply
        simp only [hending, Option.isSome_none, Bool.false_eq_true, if_false, ih]
        cases (reached session fuel commands).mapM (session.alone fuel) with
        | none => rfl
        | some transcripts =>
          exact congrArg (fun u => some (transcripts.foldl (· ++ ·) u)) (t.append_empty_add _).symm

/-- Where no check ends in a fault, a session reaches all commands before the first one that asks for
the end. -/
theorem reached_of_faultless
    (h : ∀ command ∈ commands.takeWhile (Command.parse · ≠ .ok .quit),
      session.fault? fuel command = none) :
    session.reached fuel commands = commands.takeWhile (Command.parse · ≠ .ok .quit) := by
  induction commands with
  | nil => rfl
  | cons command commands ih =>
    rw [reached]
    by_cases hquit : Command.parse command = .ok .quit
    · rw [if_pos hquit, List.takeWhile_cons_of_neg (by simpa using hquit)]
    · have hwhile : (command :: commands).takeWhile (Command.parse · ≠ .ok .quit) =
          command :: commands.takeWhile (Command.parse · ≠ .ok .quit) :=
        List.takeWhile_cons_of_pos (by simpa using hquit)
      rw [hwhile] at h ⊢
      rw [if_neg hquit, h command List.mem_cons_self, if_neg (by simp),
        ih fun other hother => h other (List.mem_cons_of_mem _ hother)]

/-! ## 3. Commands as lines of an input -/

/-- A line without its carriage return is answered like the line. -/
theorem reply?_chomp (session : Session) (fuel : Nat) (line : String) :
    session.reply? fuel (chomp line) = session.reply? fuel line := by
  simp only [reply?, Command.parse_chomp]

theorem answerLines_chomp (session : Session) (fuel : Nat) (lines : List String) (t : Transcript) :
    session.answerLines fuel (lines.map fun line => some (chomp line)) t =
      session.answerLines fuel (lines.map some) t := by
  induction lines generalizing t with
  | nil => rfl
  | cons line lines ih => simp only [List.map_cons, answerLines, reply?_chomp, ih]

theorem answer_piped (hne : commands ≠ []) (hline : ∀ command ∈ commands, '\n' ∉ command.toList)
    (session : Session) (fuel : Nat) (input : ByteArray) (t : Transcript) :
    session.answer fuel commands input t = session.answer fuel [] (piped commands) t := by
  rw [answer, answer, if_neg (by simpa using hne), if_pos List.isEmpty_nil,
    inputLines_piped hline, answerLines_chomp]

/-- **The program does the same with commands of the command line and with these commands as an
input.** -/
theorem run_piped (hne : commands ≠ []) (hline : ∀ command ∈ commands, '\n' ∉ command.toList)
    {m : Type → Type} [Monad m] (storage : Storage m) (fuel : Nat) (given : Arguments)
    (input : ByteArray) :
    run storage fuel { given with commands } input =
      run storage fuel { given with commands := [] } (piped commands) := by
  simp only [run, answer_piped hne hline _ _ input]

/-! ## 4. Faults of checks -/

/-- The direct run that a check is compared with fails in other ways than a check. -/
theorem crossCheck_ne_check {g : Grammar} {n : Nat} {verdict : Verdict} {cause : CheckError} :
    session.crossCheck g fuel n verdict ≠ some (.error (.check cause)) := by
  unfold crossCheck
  split
  · split
    · simp
    · simp
    · split <;> simp
  · simp

/-- An error of a check is one of the check of the grammar, or there is no room for the report. -/
theorem check_eq_error {kind : Kind} {n : Nat} {cause : CheckError}
    (h : session.check fuel kind n = some (.error (.check cause))) :
    (session.grammar kind).checkNumber session.preferences.maxSteps fuel n = some (.error cause) ∨
      ∃ verdict outcome,
        (session.grammar kind).checkNumber session.preferences.maxSteps fuel n = some (.ok verdict) ∧
        maxReport session.preferences <
          (report session.preferences kind n verdict outcome).utf8ByteSize := by
  unfold check at h
  simp only at h
  split at h
  · cases h
  · rename_i error hnumber
    cases h
    exact Or.inl hnumber
  · rename_i verdict hnumber
    split at h
    · cases h
    · rename_i error hcross
      cases h
      exact absurd hcross crossCheck_ne_check
    · rename_i outcome hcross
      split at h
      · cases h
      · rename_i hlong
        exact Or.inr ⟨verdict, outcome, hnumber, Nat.lt_of_not_le hlong⟩

theorem fault?_of_checkNumber {kind : Kind} {n : Nat} {fault : Fault}
    (hcommand : Command.parse command = .ok (.check kind n))
    (h : (session.grammar kind).checkNumber session.preferences.maxSteps fuel n =
      some (.error (.fault fault))) : session.fault? fuel command = some fault := by
  refine fault?_eq_some_iff.mpr ⟨kind, n, hcommand, ?_⟩
  simp only [check, h]

/-- The check of a number for whose word there is no room ends in a fault. -/
theorem fault?_of_tooLong {kind : Kind} {n : Nat}
    (hcommand : Command.parse command = .ok (.check kind n)) (hlong : Unary.maxLength < n) :
    session.fault? fuel command = some (.tooLong n) := by
  refine fault?_of_checkNumber hcommand ?_
  simp only [Grammar.checkNumber, Unary.word?, if_neg (Nat.not_le_of_lt hlong)]

/-- So does one for whose plan there is no room, or for the list of the letters that the grammar lacks. -/
theorem fault?_of_noRoom {kind : Kind} {n : Nat}
    (hcommand : Command.parse command = .ok (.check kind n)) (hsize : n ≤ Unary.maxLength)
    (hroom : (session.grammar kind).hasRoom (Unary.word n) = false) :
    session.fault? fuel command = some .noRoom := by
  refine fault?_of_checkNumber hcommand ?_
  simp only [Grammar.checkNumber, Unary.word?, if_pos hsize, hroom, Bool.false_eq_true, if_false]

variable {turing bounded : Automaton} {blank left right : String} {preferences : Preferences}

/-- **What can break a session off.**  The check of a number ends in a fault only if the number is so large,
or the machine makes so many moves on it, that there may be no room for a list, or if there is none for
the report. -/
theorem fault?_cases (hturing : turing.WellFormed) (hblank : turing.boundary = .blank blank)
    (hbounded : bounded.WellFormed) (hmarkers : bounded.boundary = .markers left right)
    {fuel : Nat} {command : String} {fault : Fault}
    (h : (ofAutomata turing bounded preferences).fault? fuel command = some fault) :
    ∃ kind n, Command.parse command = .ok (.check kind n) ∧
      (¬ FewMoves ((ofAutomata turing bounded preferences).grammar kind).automaton
          preferences.maxSteps n ∨
        ∃ verdict outcome,
          ((ofAutomata turing bounded preferences).grammar kind).checkNumber preferences.maxSteps fuel n =
            some (.ok verdict) ∧
          maxReport preferences < (report preferences kind n verdict outcome).utf8ByteSize) := by
  obtain ⟨kind, n, hcommand, hcheck⟩ := fault?_eq_some_iff.mp h
  refine ⟨kind, n, hcommand, ?_⟩
  rcases check_eq_error hcheck with hnumber | hlong
  · refine Or.inl fun hfew => ?_
    cases kind with
    | unbounded =>
      have hauto : (Grammar.ofAutomaton turing).automaton = turing := Unrestricted.automaton_eq hblank
      exact checkNumber_ne_fault hturing (Unrestricted.lockStep hturing hblank) (hauto ▸ hfew) fuel
        fault hnumber
    | bounded =>
      have hauto : (Grammar.ofAutomaton bounded).automaton = bounded :=
        ContextSensitive.automaton_eq hmarkers
      exact checkNumber_ne_fault hbounded (ContextSensitive.lockStep hbounded hmarkers) (hauto ▸ hfew)
        fuel fault hnumber
  · exact Or.inr hlong

/-! ## 5. Scripts and inputs -/

/-- **Commands of the command line and lines of an input are answered alike.**  With any files, any
options and any commands without a line feed the program ends with the same output and exit code, and
with the same errors if it is not asked for a log.  What a session writes is what each command that it
reaches writes on its own, one after the other; it reaches all commands before the first one that asks
for the end, unless a check among them ends in a fault.  With the machines that are loaded a check does
so where there is no room for the word or the plan; and only where the number, the moves of the machine
or the report may be too much for the room that there is. -/
theorem scripted_as_piped {commands : List String} (hne : commands ≠ [])
    (hline : ∀ command ∈ commands, '\n' ∉ command.toList) :
    (∀ (m : Type → Type) [Monad m] (storage : Storage m) (fuel : Nat) (given : Arguments)
      (input : ByteArray),
      (given.verbose = false → run storage fuel { given with commands } input =
        run storage fuel { given with commands := [] } (piped commands)) ∧
      (Option.map fun t => (t.stdout, t.exit)) <$> run storage fuel { given with commands } input =
        (Option.map fun t => (t.stdout, t.exit)) <$>
          run storage fuel { given with commands := [] } (piped commands)) ∧
    (∀ (session : Session) (fuel : Nat) (input : ByteArray) (t : Transcript),
      session.answer fuel commands input t =
        ((session.reached fuel commands).mapM (session.alone fuel)).map (List.foldl (· ++ ·) t) ∧
      session.answer fuel [] (piped commands) t =
        ((session.reached fuel commands).mapM (session.alone fuel)).map (List.foldl (· ++ ·) t) ∧
      ((∀ command ∈ commands.takeWhile (Command.parse · ≠ .ok .quit),
          session.fault? fuel command = none) →
        session.reached fuel commands = commands.takeWhile (Command.parse · ≠ .ok .quit))) ∧
    ∀ (turing bounded : Automaton) (blank left right : String) (preferences : Preferences),
      turing.WellFormed → turing.boundary = .blank blank →
      bounded.WellFormed → bounded.boundary = .markers left right →
      ∀ (fuel : Nat) (command : String),
        (∀ fault, (ofAutomata turing bounded preferences).fault? fuel command = some fault →
          ∃ kind n, Command.parse command = .ok (.check kind n) ∧
            (¬ FewMoves ((ofAutomata turing bounded preferences).grammar kind).automaton
                preferences.maxSteps n ∨
              ∃ verdict outcome,
                ((ofAutomata turing bounded preferences).grammar kind).checkNumber
                  preferences.maxSteps fuel n = some (.ok verdict) ∧
                maxReport preferences <
                  (report preferences kind n verdict outcome).utf8ByteSize)) ∧
        ∀ kind n, Command.parse command = .ok (.check kind n) →
          (Unary.maxLength < n →
            (ofAutomata turing bounded preferences).fault? fuel command = some (.tooLong n)) ∧
          (n ≤ Unary.maxLength →
            ((ofAutomata turing bounded preferences).grammar kind).hasRoom (Unary.word n) = false →
            (ofAutomata turing bounded preferences).fault? fuel command = some .noRoom) := by
  refine ⟨?_, ?_, ?_⟩
  · intro m _ storage fuel given input
    have hrun := run_piped hne hline storage fuel given input
    exact ⟨fun _ => hrun, congrArg _ hrun⟩
  · intro session fuel input t
    have hscript := answer_script session fuel hne input t
    refine ⟨hscript, ?_, reached_of_faultless⟩
    rw [← answer_piped hne hline session fuel input t, hscript]
  · intro turing bounded blank left right preferences hturing hblank hbounded hmarkers fuel command
    refine ⟨fun fault h => fault?_cases hturing hblank hbounded hmarkers h, fun kind n hcommand => ?_⟩
    exact ⟨fault?_of_tooLong hcommand, fault?_of_noRoom hcommand⟩

/-- The session of the walker and the shuttle, without traces. -/
def duet : Session :=
  .ofAutomata Unrestricted.walker ContextSensitive.shuttle ⟨false, none, false, true⟩

/-- Commands with white space of all kinds at the end, among them two lines that are no commands and
one that asks for the end. -/
def rehearsal : List String := ["ck0 1\r", "hello\r", "ck1 3 ", "ck0 0", " q\r", "ck0 7"]

/-- The walker takes this number, but there is no room for its plan. -/
theorem hasRoom_walker_eq_false :
    (Grammar.ofAutomaton Unrestricted.walker).hasRoom (Unary.word 200000000000000000) = false := by
  have hword : (Grammar.ofAutomaton Unrestricted.walker).automaton.Takes
      (Unary.word 200000000000000000) := by
    refine ⟨List.ne_nil_of_length_pos ?_, fun letter hletter => ?_⟩
    · rw [Unary.length_word]
      decide
    · rw [List.eq_of_mem_replicate hletter]
      decide
  rw [Grammar.hasRoom_of_takes hword]
  decide

/-- The walker and the shuttle are asked by a script, or by an input, up to the word `q`.  One number
breaks the session off for want of a word, and another one for want of a plan. -/
theorem rehearsal_as_piped :
    rehearsal ≠ [] ∧ (∀ command ∈ rehearsal, '\n' ∉ command.toList) ∧
    run Storage.Tree.storage 20 { Arguments.none with commands := rehearsal } ByteArray.empty =
      run Storage.Tree.storage 20 Arguments.none (piped rehearsal) ∧
    duet.answer 20 [] (piped rehearsal) .empty = some ⟨
      "Accepted: 1 (halted in q1 after 2 steps)\nAccepted: 111 (halted in q1 after 5 steps)\n",
      "Warning: Unknown command 'hello'\nWarning: Expected a positive integer, got '0'\n", 0⟩ ∧
    duet.reached 20 rehearsal = ["ck0 1\r", "hello\r", "ck1 3 ", "ck0 0"] ∧
    duet.fault? 20 "ck0 18446744073709551615" = some (.tooLong 18446744073709551615) ∧
    duet.fault? 20 "ck0 200000000000000000" = some .noRoom := by
  have hne : rehearsal ≠ [] := by decide
  have hline : ∀ command ∈ rehearsal, '\n' ∉ command.toList := by decide +kernel
  obtain ⟨hrun, hanswer, hfault⟩ := scripted_as_piped hne hline
  obtain ⟨hscript, hpiped, hreached⟩ := hanswer duet 20 ByteArray.empty .empty
  have hfaults := fun command => (hfault Unrestricted.walker ContextSensitive.shuttle "B" "@" "$"
    duet.preferences (by decide) rfl (by decide) rfl 20 command).2 .unbounded
  refine ⟨hne, hline, (hrun _ Storage.Tree.storage 20 Arguments.none ByteArray.empty).1 rfl, ?_, ?_, ?_,
    ?_⟩
  · rw [hpiped, ← hscript]
    decide +kernel
  · rw [hreached (by decide +kernel)]
    decide +kernel
  · exact (hfaults _ _ (by decide +kernel)).1 (by decide)
  · exact (hfaults _ _ (by decide +kernel)).2 (by decide) hasRoom_walker_eq_false

/-- A check for whose number there is no word, and a line that is no command. -/
def oversized : List String := ["ck0 18446744073709551615", "hello"]

/-- The line after the check is not answered, although none of the two asks for the end. -/
theorem oversized_breaks_off :
    oversized ≠ [] ∧ (∀ command ∈ oversized, '\n' ∉ command.toList) ∧
    duet.answer 20 oversized ByteArray.empty .empty = some ⟨"", "", 101⟩ ∧
    ((oversized.takeWhile (Command.parse · ≠ .ok .quit)).mapM (duet.alone 20)).map
        (List.foldl (· ++ ·) .empty) = some ⟨"", "Warning: Unknown command 'hello'\n", 101⟩ := by
  decide +kernel

end Session

end TapeGrammar
