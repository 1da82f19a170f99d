import PolyCalc.Calculator.Script
import PolyCalc.Proofs.Calculator.Commands
import PolyCalc.Proofs.Text.Lines
import PolyCalc.Proofs.Text.Numeral

set_option autoImplicit false

/-! # Scripts in a row

A script is worked off line by line, and what a line does depends on its number in nothing but the
number that its error names (`feed_later`). So two scripts can be run one after the other or as one:
what is left and printed is the same, and the second one's errors only count on from the lines of
the first (`run_append`). What a script writes is made of what its lines write, each of them one
line at most (`writesLineByLine`). -/

namespace PolyCalc

/-! ## Numbers of lines -/

/-- The error of a line that stands `k` lines later. -/
def CommandError.later (k : Nat) : CommandError → CommandError
  | .wrongPoly e => .wrongPoly ⟨e.line + k, e.fault⟩
  | e => e

theorem CommandError.message_later (k : Nat) (e : CommandError) :
    (e.later k).message = e.message := by
  cases e <;> rfl

/-- An error that a command line has on its own names no line. -/
theorem CommandError.later_of_parse {line : List Char} {e : CommandError}
    (h : Command.parse line = .error e) (k : Nat) : e.later k = e := by
  simp only [Command.parse] at h
  split at h
  · cases h
    rfl
  · next keyword _ =>
    split at h
    · cases h
      cases keyword <;> rfl
    · cases h

namespace Calculator

theorem execute_error {command : Command} {s : Stack} {e : CommandError}
    (h : execute s command = .error e) : e = .stackUnderflow := by
  rcases execute_cases command s with ⟨-, hexec⟩ | ⟨_, _, -, -, hexec⟩
  · rw [hexec] at h
    cases h
    rfl
  · rw [hexec] at h
    cases h

/-- The same line `k` lines later does the same, and its error names the later line. -/
theorem feed_later (c : Calculator) (line : List Char) (n k : Nat) :
    c.feed line (n + k) = ((c.feed line n).1, (c.feed line n).2.mapError (CommandError.later k)) := by
  rw [feed, feed, step, step]
  cases LineKind.ofLine line with
  | ignored => rfl
  | command =>
    cases hparse : Command.parse line with
    | error e =>
      have hlater := CommandError.later_of_parse hparse k
      simp only [Except.mapError, hlater]
    | ok command =>
      cases hexec : execute c.stack command with
      | error e =>
        obtain rfl := execute_error hexec
        simp only [hexec]
        rfl
      | ok result =>
        simp only [hexec]
        rfl
  | literal =>
    rw [Poly.parse, Poly.parse]
    cases Poly.parseWithin c.depthLimit c.depthLimit line with
    | error fault => rfl
    | ok p => rfl

/-! ## Lines one after the other -/

theorem feedAll_cons (c : Calculator) (n : Nat) (line : List Char) (lines : List (List Char)) :
    c.feedAll n (line :: lines) =
      (((c.feed line n).1.feedAll (n + 1) lines).1,
        (n, (c.feed line n).2) :: ((c.feed line n).1.feedAll (n + 1) lines).2) := rfl

theorem feedAll_append (c : Calculator) (n : Nat) (as bs : List (List Char)) :
    c.feedAll n (as ++ bs) =
      (((c.feedAll n as).1.feedAll (n + as.length) bs).1,
        (c.feedAll n as).2 ++ ((c.feedAll n as).1.feedAll (n + as.length) bs).2) := by
  induction as generalizing c n with
  | nil => rfl
  | cons line as ih =>
    rw [List.cons_append, feedAll_cons, ih, feedAll_cons, List.length_cons, Nat.add_assoc,
      Nat.add_comm 1]
    rfl

theorem feedAll_later (c : Calculator) (n k : Nat) (lines : List (List Char)) :
    c.feedAll (n + k) lines =
      ((c.feedAll n lines).1,
        (c.feedAll n lines).2.map fun x => (x.1 + k, x.2.mapError (CommandError.later k))) := by
  induction lines generalizing c n with
  | nil => rfl
  | cons line lines ih =>
    rw [feedAll_cons, feed_later, Nat.add_right_comm, ih, feedAll_cons]
    rfl

theorem map_fst_feedAll (c : Calculator) (n : Nat) (lines : List (List Char)) :
    (c.feedAll n lines).2.map Prod.fst = List.range' n lines.length := by
  induction lines generalizing c n with
  | nil => rfl
  | cons line lines ih =>
    rw [feedAll_cons, List.map_cons, ih, List.length_cons, List.range'_succ]

/-- What holds of the outcome of every line, whatever comes before it, holds of all outcomes. -/
theorem forall_feedAll {P : Nat → Outcome → Prop} (h : ∀ c line n, P n (feed c line n).2)
    (c : Calculator) (n : Nat) (lines : List (List Char)) :
    ∀ x ∈ (c.feedAll n lines).2, P x.1 x.2 := by
  induction lines generalizing c n with
  | nil => exact List.forall_mem_nil _
  | cons line lines ih =>
    rw [feedAll_cons]
    exact List.forall_mem_cons.mpr ⟨h c line n, ih _ _⟩

theorem scriptLines_append {a : List UInt8} (h : a = [] ∨ a.getLast? = some 10)
    (b : List UInt8) : scriptLines (a ++ b) = scriptLines a ++ scriptLines b := by
  rw [scriptLines, Text.splitLines_append h, List.map_append]
  rfl

end Calculator

/-! ## What the outcomes of lines write -/

namespace Transcript

/-- What the outcome of a line adds to what is printed. -/
def printed : Outcome → String
  | .ok (some text) => String.ofList (text ++ ['\n'])
  | _ => ""

/-- What the outcome of the line with the number `n` adds to the error reports. -/
def reported (n : Nat) : Outcome → String
  | .error e => errorLine n e ++ "\n"
  | .ok _ => ""

theorem stdout_ofOutcomes (c : Calculator) (outcomes : List (Nat × Outcome)) :
    (ofOutcomes c outcomes).stdout = String.join (outcomes.map fun x => printed x.2) := by
  induction outcomes with
  | nil => rfl
  | cons x outcomes ih =>
    rw [List.map_cons, String.join_cons, ← ih]
    obtain ⟨n, outcome⟩ := x
    rcases outcome with e | _ | text
    · simp [stdout, ofOutcomes, printed, Except.toOption]
    · simp [stdout, ofOutcomes, printed, Except.toOption]
    · simp [stdout, ofOutcomes, printed, Except.toOption, String.append_assoc]

theorem stderr_ofOutcomes (c : Calculator) (outcomes : List (Nat × Outcome)) :
    (ofOutcomes c outcomes).stderr = String.join (outcomes.map fun x => reported x.1 x.2) := by
  induction outcomes with
  | nil => rfl
  | cons x outcomes ih =>
    rw [List.map_cons, String.join_cons, ← ih]
    obtain ⟨n, outcome⟩ := x
    rcases outcome with e | _ | text
    · simp [stderr, errorLines, ofOutcomes, reported]
    · simp [stderr, errorLines, ofOutcomes, reported]
    · simp [stderr, errorLines, ofOutcomes, reported]

theorem printed_mapError (k : Nat) (outcome : Outcome) :
    printed (outcome.mapError (CommandError.later k)) = printed outcome := by
  rcases outcome with e | _ | text <;> rfl

/-- The transcript with its errors counted on from the number `k`. -/
def renumber (k : Nat) (t : Transcript) : Transcript :=
  { t with errors := t.errors.map fun (n, e) => (n + k, e) }

/-- Only the numbers of the reports change when lines stand later. -/
theorem stderr_renumber (c : Calculator) (k : Nat) (outcomes : List (Nat × Outcome)) :
    ((ofOutcomes c outcomes).renumber k).stderr =
      String.join (outcomes.map fun x =>
        reported (x.1 + k) (x.2.mapError (CommandError.later k))) := by
  induction outcomes with
  | nil => rfl
  | cons x outcomes ih =>
    rw [List.map_cons, String.join_cons, ← ih]
    obtain ⟨n, outcome⟩ := x
    rcases outcome with e | _ | text
    · simp [stderr, errorLines, ofOutcomes, renumber, reported, Except.mapError, errorLine,
        CommandError.message_later]
    · simp [stderr, errorLines, ofOutcomes, renumber, reported, Except.mapError]
    · simp [stderr, errorLines, ofOutcomes, renumber, reported, Except.mapError]

/-! ## Single lines -/

/-- The text is one line: it ends in a line feed and has no other. -/
def IsLine (text : String) : Prop := ∃ cs : List Char, '\n' ∉ cs ∧ text = String.ofList (cs ++ ['\n'])

/-- At most one line is written, and to one of the two streams only. -/
def AtMostOneLine (out err : String) : Prop :=
  out = "" ∧ err = "" ∨ IsLine out ∧ err = "" ∨ out = "" ∧ IsLine err

end Transcript

theorem newline_notMem_of_isDigit {cs : List Char} (h : ∀ c ∈ cs, c = '-' ∨ c.isDigit = true) :
    '\n' ∉ cs := by
  intro hmem
  rcases h '\n' hmem with hminus | hdigit
  · exact absurd hminus (by decide)
  · exact absurd hdigit (by decide)

theorem newline_notMem_writeNat (n : Nat) : '\n' ∉ Text.writeNat n :=
  newline_notMem_of_isDigit fun c hc => Or.inr ((Text.isNatural_writeNat n).1.isDigit c hc)

theorem newline_notMem_writeInt (i : Int) : '\n' ∉ Text.writeInt i :=
  newline_notMem_of_isDigit (Text.isInteger_writeInt i).isDigit

theorem newline_notMem_renderMono {cs : List Char} (h : '\n' ∉ cs) (e : UInt32) :
    '\n' ∉ renderMono cs e := by
  have hexp := newline_notMem_writeNat e.toNat
  simp [renderMono, h, hexp]

mutual

theorem newline_notMem_render : ∀ p : Poly, '\n' ∉ p.render
  | .coeff c => newline_notMem_writeInt c.toInt
  | .sum ms => newline_notMem_renderMonos ms

theorem newline_notMem_renderMonos : ∀ ms : List (Mono Poly), '\n' ∉ Poly.renderMonos ms
  | [] => by simp [Poly.renderMonos]
  | [⟨p, e⟩] => newline_notMem_renderMono (newline_notMem_render p) e
  | ⟨p, e⟩ :: m :: ms => by
    have hmono := newline_notMem_renderMono (newline_notMem_render p) e
    have hrest := newline_notMem_renderMonos (m :: ms)
    simp [Poly.renderMonos, hmono, hrest]

end

theorem newline_notMem_printed {command : Command} {operands : List Poly} {text : List Char}
    (h : command.printed operands = some text) : '\n' ∉ text := by
  have hflag (b : Bool) : '\n' ∉ Calculator.flag b := by cases b <;> decide
  unfold Command.printed at h
  split at h
  · cases h
    exact hflag _
  · cases h
    exact hflag _
  · cases h
    exact hflag _
  · cases h
    exact newline_notMem_writeInt _
  · cases h
    exact newline_notMem_writeInt _
  · cases h
    exact newline_notMem_render _
  · cases h

theorem newline_notMem_errorLine (n : Nat) (e : CommandError) :
    '\n' ∉ (Transcript.errorLine n e).toList := by
  have hnumber : '\n' ∉ Nat.toDigits 10 n := newline_notMem_writeNat n
  have hmessage : '\n' ∉ e.message.toList := by
    unfold CommandError.message
    split <;> decide
  simp [Transcript.errorLine, hnumber, hmessage]

namespace Calculator

theorem newline_notMem_of_feed {c : Calculator} {line : List Char} {n : Nat} {text : List Char}
    (h : (c.feed line n).2 = .ok (some text)) : '\n' ∉ text := by
  cases hstep : c.step line n with
  | error e =>
    rw [feed_of_error hstep] at h
    cases h
  | ok result =>
    obtain ⟨s, output⟩ := result
    rw [feed_of_ok hstep] at h
    obtain rfl : output = some text := Except.ok.inj h
    rcases step_ok_cases hstep with ⟨-, -, hnone⟩ | ⟨_, -, -, hexec⟩ | ⟨_, -, -, -, hnone⟩
    · cases hnone
    · obtain ⟨_, _, -, -, -, hprinted⟩ := exists_of_execute_ok hexec
      exact newline_notMem_printed hprinted.symm
    · cases hnone

theorem atMostOneLine_feed (c : Calculator) (line : List Char) (n : Nat) :
    Transcript.AtMostOneLine (Transcript.printed (c.feed line n).2)
      (Transcript.reported n (c.feed line n).2) := by
  rcases houtcome : (c.feed line n).2 with e | _ | text
  · refine Or.inr (Or.inr ⟨rfl, (Transcript.errorLine n e).toList,
      newline_notMem_errorLine n e, ?_⟩)
    simp [Transcript.reported]
  · exact Or.inl ⟨rfl, rfl⟩
  · exact Or.inr (Or.inl ⟨⟨text, newline_notMem_of_feed houtcome, rfl⟩, rfl⟩)

/-! ## Runs -/

/-- The outcomes of the lines of a script, with their numbers. -/
def outcomes (c : Calculator) (script : List UInt8) : List (Nat × Outcome) :=
  (c.feedAll 1 (scriptLines script)).2

/-- A run writes what its lines write, in their order, and each of them at most one line. -/
def WritesLineByLine (c : Calculator) (script : List UInt8) : Prop :=
  (c.outcomes script).map Prod.fst = List.range' 1 (scriptLines script).length ∧
    (c.run script).stdout =
      String.join ((c.outcomes script).map fun x => Transcript.printed x.2) ∧
    (c.run script).stderr =
      String.join ((c.outcomes script).map fun x => Transcript.reported x.1 x.2) ∧
    ∀ x ∈ c.outcomes script,
      Transcript.AtMostOneLine (Transcript.printed x.2) (Transcript.reported x.1 x.2)

theorem run_eq (c : Calculator) (script : List UInt8) :
    c.run script =
      Transcript.ofOutcomes (c.feedAll 1 (scriptLines script)).1 (c.outcomes script) := rfl

theorem writesLineByLine (c : Calculator) (script : List UInt8) : c.WritesLineByLine script := by
  refine ⟨map_fst_feedAll c 1 _, Transcript.stdout_ofOutcomes _ _,
    Transcript.stderr_ofOutcomes _ _, ?_⟩
  exact forall_feedAll (P := fun n outcome =>
    Transcript.AtMostOneLine (Transcript.printed outcome) (Transcript.reported n outcome))
    atMostOneLine_feed c 1 _

/-- The outcomes of two scripts in a row. -/
theorem outcomes_append (c : Calculator) {a : List UInt8} (ha : a = [] ∨ a.getLast? = some 10)
    (b : List UInt8) :
    c.outcomes (a ++ b) = c.outcomes a ++ ((c.run a).calculator.outcomes b).map fun x =>
      (x.1 + a.count 10, x.2.mapError (CommandError.later (a.count 10))) := by
  have hlength : (scriptLines a).length = a.count 10 := by
    rw [scriptLines, List.length_map, Text.length_splitLines ha]
  rw [outcomes, scriptLines_append ha, feedAll_append, feedAll_later, hlength]
  rfl

theorem calculator_run_append (c : Calculator) {a : List UInt8}
    (ha : a = [] ∨ a.getLast? = some 10) (b : List UInt8) :
    (c.run (a ++ b)).calculator = ((c.run a).calculator.run b).calculator := by
  rw [run_eq, scriptLines_append ha, feedAll_append, feedAll_later]
  rfl

/-- Two scripts, of which the first one is empty or ends in a line feed, run one after the other as
    they run as one. The calculator that is left is the same, what is printed is that of both, and
    so are the error reports, where those of the second script count on from the lines of the
    first. Every line adds at most one line to what is written, to one of the two streams. -/
theorem run_append (c : Calculator) {a : List UInt8} (ha : a = [] ∨ a.getLast? = some 10)
    (b : List UInt8) :
    (c.run (a ++ b)).calculator = ((c.run a).calculator.run b).calculator ∧
      (c.run (a ++ b)).stdout = (c.run a).stdout ++ ((c.run a).calculator.run b).stdout ∧
      (c.run (a ++ b)).stderr = (c.run a).stderr ++
        (((c.run a).calculator.run b).renumber (a.count 10)).stderr ∧
      c.WritesLineByLine (a ++ b) := by
  refine ⟨calculator_run_append c ha b, ?_, ?_, c.writesLineByLine (a ++ b)⟩
  · simp only [run_eq _ (a ++ b), run_eq _ a, run_eq _ b, Transcript.stdout_ofOutcomes]
    rw [outcomes_append c ha, List.map_append, List.map_map, String.join_append]
    simp only [Function.comp_def, Transcript.printed_mapError]
    rfl
  · rw [run_eq c (a ++ b), run_eq _ b, Transcript.stderr_renumber, Transcript.stderr_ofOutcomes,
      outcomes_append c ha, List.map_append, List.map_map, String.join_append, run_eq c a,
      Transcript.stderr_ofOutcomes]
    rfl

/-- A numeral, with a carriage return after it, and a command that lacks an operand. -/
def failingScript : List UInt8 := [50, 13, 10, 65, 68, 68, 10]

/-- A byte that is no text, and a command without a line feed after it. -/
def openScript : List UInt8 := [255, 10, 80, 82, 73, 78, 84]

theorem run_append_openScript :
    failingScript.getLast? = some 10 ∧
      ((new 2).run (failingScript ++ openScript)).stdout = "2\n" ∧
      ((new 2).run (failingScript ++ openScript)).stderr =
        "ERROR 2 STACK UNDERFLOW\nERROR 3 WRONG POLY\n" ∧
      ((new 2).run (failingScript ++ openScript)).calculator =
        (((new 2).run failingScript).calculator.run openScript).calculator ∧
      ((new 2).run (failingScript ++ openScript)).stdout =
        ((new 2).run failingScript).stdout ++
          (((new 2).run failingScript).calculator.run openScript).stdout ∧
      ((new 2).run (failingScript ++ openScript)).stderr =
        ((new 2).run failingScript).stderr ++
          ((((new 2).run failingScript).calculator.run openScript).renumber
            (failingScript.count 10)).stderr ∧
      (new 2).WritesLineByLine (failingScript ++ openScript) :=
  ⟨by decide, by decide +kernel, by decide +kernel, run_append (new 2) (Or.inr (by decide)) openScript⟩

end Calculator

end PolyCalc
