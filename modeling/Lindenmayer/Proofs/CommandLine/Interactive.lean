import Lindenmayer.CommandLine.Commands
import Lindenmayer.Proofs.CommandLine.Session
import Lindenmayer.Proofs.Derivation.Truncation
import Lindenmayer.Proofs.Grammar.Reader
import Lindenmayer.Proofs.Random.Twister

/-!
# Interactive growth

An interactive run and one that grows a grammar in one go are two drivers of the same system. Started
from the same seed they come to the same words: a step lemma says what a line of the input does to
the system and to the session, a run lemma follows all lines up to the one that ends the run, and the
words that are shown are compared with what growth without a limit prints. The limit is tested behind
each step and not in front of the first one, so a word of the axiom that is too long is rewritten.
-/

namespace Lindenmayer.CommandLine

open Text Host Session

/-- The number of lines in front of the first request to stop. -/
def wishes (lines : List (List Char)) : Nat :=
  (lines.takeWhile fun line => !isQuit line).length

/-- The lines of successive generations. -/
def transcript (system : LSystem Twister) (first count : Nat) : String :=
  String.join ((List.range' first count).map fun k =>
    generationLine k (system.after k).current ++ "\n")

@[simp]
theorem transcript_zero (system : LSystem Twister) (first : Nat) : transcript system first 0 = "" :=
  rfl

theorem transcript_succ (system : LSystem Twister) (first count : Nat) :
    transcript system first (count + 1) =
      generationLine first (system.after first).current ++ "\n" ++
        transcript system (first + 1) count := by
  rw [transcript, List.range'_succ, List.map_cons, String.join_cons]
  rfl

theorem run_orFailNoted {α : Type} (before after : LSystem Twister) (a : α) (session : Session) :
    ∃ diagnostics, (orFailNoted before (.ok a, after) : Attempt (StateM Session) _).run session =
      (.ok (a, after), { session with diagnostics }) := by
  obtain ⟨diagnostics, hnote⟩ := run_note
    (fun _ => before.journal (after.generation - before.generation)) session
  exact ⟨diagnostics, run_bind_ok hnote _⟩

section
variable {system : LSystem Twister} (h : system.Validated) (hstarted : system.started = true)

include h hstarted

/-- A line that is no request to stop shows the next word. -/
theorem run_interactiveStep {line : String} (hline : isQuit line.toList = false)
    (limit : Option Int) (session : Session) :
    ∃ diagnostics, (interactiveStep limit system line : Attempt (StateM Session) _).run session =
      (.ok (if Generations.exceeds limit (system.after 1).current.length then none
        else some (system.after 1)),
        { session with
          output := session.output ++
            (generationLine (system.generation + 1) (system.after 1).current ++ "\n"),
          diagnostics }) := by
  have hnext : system.next = (.ok (system.after 1).current, system.after 1) := by
    rw [h.next_eq, LSystem.due, if_pos hstarted, h.after_mark hstarted]
  obtain ⟨diagnostics, hanswer⟩ :=
    run_orFailNoted system (system.after 1) (system.after 1).current session
  unfold interactiveStep
  rw [hline, if_neg Bool.false_ne_true, hnext, run_bind_ok hanswer]
  simp only
  rw [run_bind_ok (run_printLine _ _), (h.after_unchanged 1).1]
  cases limit with
  | none => exact ⟨diagnostics, rfl⟩
  | some bound =>
    by_cases hbound : bound < (system.after 1).current.length
    · simp only [Generations.exceeds, hbound, decide_true, if_true]
      exact ⟨_, rfl⟩
    · simp only [Generations.exceeds, hbound, decide_false, if_false]
      exact ⟨diagnostics, rfl⟩
end

/-- The lines of the input are answered with one generation each, until the first request to stop or
the first word that is shown and too long. -/
theorem run_forLines {origin : LSystem Twister} (h : origin.IsNew) (limit : Option Int)
    (lines : List (List Char)) (shown : Nat) (session : Session) :
    ∃ (count : ℕ) (after : Session),
      (Session.forLines (interactiveStep limit) { origin.after shown with started := true }
        lines).run session = (.ok (), after) ∧
      after.output = session.output ++ transcript origin (shown + 1) count ∧
      (count : ℕ∞) = min (wishes lines : ℕ∞) ((origin.after (shown + 1)).firstBeyond limit + 1) := by
  induction lines generalizing shown session with
  | nil => exact ⟨0, session, rfl, String.append_empty.symm, (zero_min _).symm⟩
  | cons line rest ih =>
    let waiting : Session := { session with input := rest.flatten }
    cases hquit : isQuit line with
    | true =>
      have hstop : (interactiveStep limit { origin.after shown with started := true }
          (String.ofList line) : Attempt (StateM Session) _).run waiting = (.ok none, waiting) := by
        unfold interactiveStep
        rw [String.toList_ofList, hquit, if_pos rfl]
        rfl
      have hwishes : wishes (line :: rest) = 0 := by
        simp [wishes, hquit]
      refine ⟨0, waiting, forLines_cons_of_none hstop, String.append_empty.symm, ?_⟩
      rw [hwishes, Nat.cast_zero, zero_min]
    | false =>
      have hsystem : LSystem.Validated { origin.after shown with started := true } :=
        h.validated.after shown
      have hnext : LSystem.after { origin.after shown with started := true } 1 =
          { origin.after (shown + 1) with started := true } := by
        rw [LSystem.after_started, LSystem.after_add]
      have hwishes : wishes (line :: rest) = wishes rest + 1 := by
        simp [wishes, hquit]
      obtain ⟨diagnostics, hstep⟩ := run_interactiveStep hsystem rfl
        (by rw [String.toList_ofList, hquit]) limit waiting
      rw [hnext] at hstep
      by_cases hbeyond : Beyond limit (origin.after (shown + 1)).current
      · -- the word that is shown is the last one
        rw [if_pos (exceeds_iff.2 hbeyond)] at hstep
        refine ⟨1, _, forLines_cons_of_none hstep, ?_, ?_⟩
        · rw [transcript_succ, h.generation_after, transcript_zero, String.append_empty]
        · rw [LSystem.firstBeyond_eq_zero hbeyond, hwishes]
          simp
      · rw [if_neg fun hexceeds => hbeyond (exceeds_iff.1 hexceeds)] at hstep
        obtain ⟨count, after, hrun, houtput, hcount⟩ := ih (shown + 1) { waiting with
          output := waiting.output ++ (generationLine
            ((origin.after shown).generation + 1) (origin.after (shown + 1)).current ++ "\n"),
          diagnostics }
        refine ⟨count + 1, after, (forLines_cons_of_some hstep).trans hrun, ?_, ?_⟩
        · rw [houtput, transcript_succ, h.generation_after, String.append_assoc]
        · rw [LSystem.firstBeyond_eq_add_one hbeyond, ← LSystem.after_add, hwishes, Nat.cast_add,
            Nat.cast_add, Nat.cast_one, hcount, min_add_add_right]

section
variable {origin : LSystem Twister} (h : origin.IsNew)

include h

/-- The word of the axiom is shown in any case, whatever its length. -/
theorem run_interact (limit : Option Int) (session : Session) :
    ∃ (last : ℕ) (after : Session),
      (interact origin limit : Attempt (StateM Session) Unit).run session = (.ok (), after) ∧
      after.output = session.output ++ transcript origin 0 (last + 1) ∧
      (last : ℕ∞) = min (wishes (inputLines session.input) : ℕ∞)
        ((origin.after 1).firstBeyond limit + 1) := by
  have hnext : origin.next = (.ok origin.current, { origin with started := true }) := by
    rw [h.validated.next_eq, h.due_eq, LSystem.after_zero]
  let prompted : Session := { session with
    diagnostics := session.diagnostics ++ ("[enter] next generation, q to quit" ++ "\n") }
  obtain ⟨diagnostics, hanswer⟩ :=
    run_orFailNoted origin { origin with started := true } origin.current prompted
  let shown : Session := { prompted with
    output := session.output ++ (generationLine origin.generation origin.current ++ "\n"),
    diagnostics }
  obtain ⟨last, after, hrun, houtput, hlast⟩ :=
    run_forLines h limit (inputLines session.input) 0 shown
  refine ⟨last, after, ?_, ?_, hlast⟩
  · unfold interact
    rw [run_bind_ok (run_warnLine _ _), hnext, run_bind_ok hanswer]
    simp only
    rw [run_bind_ok (run_printLine _ _)]
    exact hrun
  · have hfirst : shown.output =
        session.output ++ (generationLine 0 (origin.after 0).current ++ "\n") :=
      congrArg (fun k => session.output ++ (generationLine k origin.current ++ "\n"))
        h.generation_eq
    rw [houtput, hfirst, transcript_succ, String.append_assoc]

/-- Without a limit growth makes all steps that are asked for. -/
theorem run_growNoted {iterations : ℕ} (hmax : (iterations : Int) < LSystem.maxCount)
    (session : Session) :
    ∃ diagnostics,
      (growNoted origin iterations none : Attempt (StateM Session) String).run session =
        (.ok (String.ofList (origin.after iterations).current.text),
          { session with diagnostics }) := by
  obtain ⟨steps, hsteps, hgrow⟩ := h.validated.grow_eq hmax none
  rw [h.due_eq, Nat.cast_zero, zero_add, LSystem.after_zero, LSystem.firstBeyond_none,
    min_top_right] at hsteps
  obtain rfl := ENat.natCast_inj.1 hsteps
  rw [decide_eq_false (lt_irrefl steps)] at hgrow
  obtain ⟨diagnostics, hanswer⟩ := run_orFailNoted origin
    { origin.after steps with started := true } ((origin.after steps).current, false) session
  refine ⟨diagnostics, ?_⟩
  unfold growNoted
  rw [hgrow, run_bind_ok hanswer]
  rfl

end

/-- A grammar that is read has been parsed. -/
theorem exists_parse_of_readGrammar {path : String} {session read : Session} {grammar : Grammar}
    (h : (readGrammar path : Attempt (StateM Session) Grammar).run session = (.ok grammar, read)) :
    ∃ text, Grammar.parse text = .ok grammar := by
  have htext {session : Session} {text : List Char}
      (h : (GrammarFile.readText text : Attempt (StateM Session) Grammar).run session =
        (.ok grammar, read)) : Grammar.parse text = .ok grammar := by
    obtain ⟨parsed, next, hrest, hparse⟩ := exists_of_run_bind h
    obtain ⟨-, final, hpure, -⟩ := exists_of_run_bind hrest
    obtain rfl : parsed = grammar := Except.ok.inj (congrArg Prod.fst hpure)
    cases hresult : Grammar.parse text with
    | ok other =>
      rw [hresult] at hparse
      exact congrArg Except.ok (Except.ok.inj (congrArg Prod.fst hparse))
    | error e =>
      rw [hresult] at hparse
      exact absurd (congrArg Prod.fst hparse) nofun
  unfold readGrammar at h
  split at h
  · obtain ⟨text, next, hread, -⟩ := exists_of_run_bind h
    exact ⟨_, htext hread⟩
  · obtain ⟨octets, next, hread, -⟩ := exists_of_run_bind h
    cases hdecode : Utf8.decode octets with
    | ok text =>
      rw [hdecode] at hread
      exact ⟨_, htext hread⟩
    | error fault =>
      rw [hdecode] at hread
      exact absurd (congrArg Prod.fst hread) nofun

section
variable {options : GenerateOptions} {grammar : Grammar} {seed : Int} {system : LSystem Twister}
  {session read : Session}

/-- What the command does once the grammar has been read. -/
theorem run_generate
    (hread : (grammarPath options >>= readGrammar : Attempt (StateM Session) Grammar).run session =
      (.ok grammar, read))
    (hsystem : LSystem.ofGrammar grammar (.ofSeed seed) = .ok system) {limit : Option Int}
    (hlimit : ∀ bound ∈ limit, 0 < bound) (iterations : ℕ) (interactive : Bool) :
    (generate { options with
        iterations := .value iterations, seed := some (.value seed),
        maxLength := limit.map .value, interactive } : Attempt (StateM Session) Unit).run session =
      (if interactive then interact system limit
        else growNoted system iterations limit >>= fun line =>
          (printLine line : StateM Session Unit) : Attempt (StateM Session) Unit).run
        { read with
          output := read.output ++ if options.verbose then String.ofList grammar.text else "" } := by
  have hpositive : limit.all (0 < ·) = true := by
    cases limit with
    | none => rfl
    | some bound => exact decide_eq_true (hlimit bound rfl)
  have hvalue : (limit.map Given.value).mapM (orBlank .blankLengthBound) =
      (pure limit : Attempt (StateM Session) (Option Int)) := by
    cases limit with
    | none => rfl
    | some bound => rfl
  have hseed : (some (Given.value seed)).mapM (orBlank .blankSeed) =
      (pure (some seed) : Attempt (StateM Session) (Option Int)) := rfl
  -- the path and the system depend on none of the options that are given here
  have hpath : grammarPath { options with
        iterations := .value iterations, seed := some (.value seed),
        maxLength := limit.map .value, interactive } =
      (grammarPath options : Attempt (StateM Session) String) := rfl
  have hsystemFor : (systemFor grammar (some seed) : Attempt (StateM Session) _).run read =
      (.ok system, read) := by
    unfold systemFor generatorFor
    rw [pure_bind, hsystem]
    rfl
  unfold generate
  simp only [orBlank, pure_bind, hvalue]
  rw [run_bind_ok (run_require (decide_eq_true (Int.natCast_nonneg iterations)) _ _),
    run_bind_ok (run_require hpositive _ _), hpath, ← bind_assoc, run_bind_ok hread, hseed,
    pure_bind, run_bind_ok hsystemFor]
  cases options.verbose with
  | false =>
    simp only [Bool.false_eq_true, if_false, String.append_empty]
  | true =>
    simp only [if_true]
    exact run_bind_ok (run_print _ _) _

/-- With a seed, the interactive command shows the words that growing without a limit ends with, one
for each line of the input before a request to stop, each with its number. It stops at the first word
that it has come to by a step and that is too long. -/
theorem interactive_shows_generations
    (hread : (grammarPath options >>= readGrammar : Attempt (StateM Session) Grammar).run session =
      (.ok grammar, read))
    (seed : Int) {limit : Option Int} (hlimit : ∀ bound ∈ limit, 0 < bound) :
    ∃ (system : LSystem Twister) (last : ℕ) (front : String),
      LSystem.ofGrammar grammar (.ofSeed seed) = .ok system ∧
      front = read.output ++ (if options.verbose then String.ofList grammar.text else "") ∧
      (∀ k : ℕ, (k : Int) < LSystem.maxCount → ∃ after : Session,
        (generate { options with
          iterations := .value k, seed := some (.value seed), maxLength := none,
          interactive := false } : Attempt (StateM Session) Unit).run session = (.ok (), after) ∧
        after.output = front ++ (String.ofList (system.after k).current.text ++ "\n")) ∧
      (∀ k : ℕ, ∃ after : Session,
        (generate { options with
          iterations := .value k, seed := some (.value seed), maxLength := limit.map .value,
          interactive := true } : Attempt (StateM Session) Unit).run session = (.ok (), after) ∧
        after.output = front ++ transcript system 0 (last + 1)) ∧
      (last : ℕ∞) = min (wishes (inputLines read.input) : ℕ∞)
        ((system.after 1).firstBeyond limit + 1) ∧
      (¬Beyond limit grammar.initial →
        (last : ℕ∞) = min (wishes (inputLines read.input) : ℕ∞) (system.firstBeyond limit)) := by
  obtain ⟨path, chosen, hgrammar, -⟩ := exists_of_run_bind hread
  obtain ⟨text, hparse⟩ := exists_parse_of_readGrammar hgrammar
  have hsystem := LSystem.create_of_bound grammar.initial (Twister.ofSeed seed)
    (Grammar.bound_of_parse hparse)
  have hnew := LSystem.isNew_of_create hsystem
  let front := read.output ++ if options.verbose then String.ofList grammar.text else ""
  obtain ⟨last, after, hrun, houtput, hlast⟩ := run_interact hnew limit { read with output := front }
  refine ⟨_, last, front, hsystem, rfl, fun k hmax => ?_, fun k => ⟨after, ?_, houtput⟩, hlast,
    fun hwithin => ?_⟩
  · -- growing in one go ends with the word after as many steps
    obtain ⟨diagnostics, hgrow⟩ := run_growNoted hnew hmax { read with output := front }
    have hnone : ∀ bound ∈ (none : Option Int), 0 < bound := nofun
    have hbatch := run_generate hread hsystem hnone k false
    simp only [Bool.false_eq_true, if_false] at hbatch
    rw [run_bind_ok hgrow] at hbatch
    exact ⟨_, hbatch, rfl⟩
  · exact (run_generate hread hsystem hlimit k true).trans hrun
  · rw [hlast]
    exact congrArg _ (LSystem.firstBeyond_eq_add_one hwithin).symm

end

/-- The axiom `AB` with the production `A = AB`. -/
def growing : Grammar where
  initial := [.plain 'A', .plain 'B']
  productions := [{
    predecessor := .plain 'A'
    successor := [.plain 'A', .plain 'B']
    wellFormed := LSystem.wellFormed_growth }]

/-- A session with a file that holds this grammar, and an input of two empty lines. -/
def waiting : Session where
  volume := ⟨[(["g"], .file "AB\nA=AB\n".toUTF8)]⟩
  input := ['\n', '\n']

theorem fileOctets_waiting : (fileOctets "g" : Attempt (StateM Session) ByteArray).run waiting =
    (.ok "AB\nA=AB\n".toUTF8, waiting) := by
  have hparts : Path.parts "g" = ["g"] := by
    unfold Path.parts String.splitOn
    rw [if_neg (by decide), String.splitOnAux, if_neg (by decide), if_neg (by decide),
      String.splitOnAux]
    decide +kernel
  have hread : waiting.volume.read waiting.directory "g" = .ok "AB\nA=AB\n".toUTF8 := by
    have hplace : waiting.volume.locate waiting.directory "g" = .ok ["g"] := by
      unfold Volume.locate
      rw [hparts]
      exact toOption_eq_some.1 (by decide +kernel)
    have hends : Volume.asksDirectory "g" = false := by decide +kernel
    unfold Volume.read
    rw [hplace, hends]
    rfl
  unfold fileOctets checkPath
  rw [show hasNull "g" = false by decide +kernel, if_neg Bool.false_ne_true]
  show (orFileFailure _ (waiting.volume.read _ _) :
    Attempt (StateM Session) ByteArray).run waiting = _
  rw [hread]
  rfl

theorem readGrammar_waiting :
    (grammarPath { grammar := some "g" } >>= readGrammar :
      Attempt (StateM Session) Grammar).run waiting = (.ok growing, waiting) := by
  have hpath : (grammarPath { grammar := some "g" } : Attempt (StateM Session) String).run
      waiting = (.ok "g", waiting) := rfl
  have hdecode : Utf8.decode "AB\nA=AB\n".toUTF8 = .ok "AB\nA=AB\n".toList :=
    toOption_eq_some.1 (by decide +kernel)
  have hparse : Grammar.parse (unifyBreaks "AB\nA=AB\n".toList) = .ok growing :=
    toOption_eq_some.1 (by decide +kernel)
  rw [run_bind_ok hpath, readGrammar, if_neg (by decide), GrammarFile.load,
    run_bind_ok fileOctets_waiting, hdecode]
  simp only
  rw [GrammarFile.readText, hparse]
  rfl

/-- The words `ABB` and `ABBB` are shown for the two lines. -/
theorem interactive_shows_generations_growing :
    (grammarPath { grammar := some "g" } >>= readGrammar :
      Attempt (StateM Session) Grammar).run waiting = (.ok growing, waiting) ∧
    (∀ bound ∈ (some 3 : Option Int), 0 < bound) ∧
    ∃ (system : LSystem Twister) (last : ℕ) (after : Session),
      LSystem.ofGrammar growing (.ofSeed 0) = .ok system ∧
      (generate {
          grammar := some "g", seed := some (.value 0), maxLength := some (.value 3)
          interactive := true } : Attempt (StateM Session) Unit).run waiting = (.ok (), after) ∧
      after.output = transcript system 0 (last + 1) ∧
      (last : ℕ∞) = min 2 (system.firstBeyond (some 3)) := by
  have hlimit : ∀ bound ∈ (some 3 : Option Int), 0 < bound := by decide
  have hwithin : ¬Beyond (some 3) growing.initial := by
    rw [← exceeds_iff]
    decide
  have hwishes : wishes (inputLines waiting.input) = 2 := by decide +kernel
  obtain ⟨system, last, front, hsystem, hfront, -, hinteractive, -, hlast⟩ :=
    interactive_shows_generations readGrammar_waiting 0 hlimit
  obtain ⟨after, hrun, houtput⟩ := hinteractive 0
  have hlast := hlast hwithin
  rw [hwishes] at hlast
  have hempty : front = "" := hfront
  rw [hempty, String.empty_append] at houtput
  exact ⟨readGrammar_waiting, hlimit, system, last, after, hsystem, hrun, houtput, hlast⟩

/-- The system for this grammar. -/
def growingFrom {σ : Type} (source : σ) : LSystem σ where
  current := growing.initial
  productions := growing.productions
  source

theorem ofGrammar_growing {σ : Type} (source : σ) :
    LSystem.ofGrammar growing source = .ok (growingFrom source) :=
  LSystem.create_of_bound _ _ (List.forall_mem_singleton.2 nofun)

/-- The only production of this grammar. -/
def growth : Production :=
  growing.productions.head (List.cons_ne_nil _ _)

/-- The sites of its axiom. -/
def growingSites : Site (Element Float) × Site (Element Float) :=
  (⟨none, .plain 'A', some (.plain 'B')⟩, ⟨some (.plain 'A'), .plain 'B', none⟩)

section
variable {σ : Type} [DrawSource σ] (source : σ)

/-- A draw below 1 replaces `A`. -/
theorem deriveAt_growing_fst (h : (DrawSource.draw source).1 < 1.0) :
    (deriveAt growing.productions growingSites.1).run source =
      (.ok (.replaced [.plain 'A', .plain 'B']), (DrawSource.draw source).2) := by
  have hcandidates : candidates growingSites.1 growing.productions = .ok [growth] :=
    toOption_eq_some.1 (by decide +kernel)
  have hword : growth.replace growingSites.1 = .ok [.plain 'A', .plain 'B'] :=
    toOption_eq_some.1 (by decide +kernel)
  have hselect : select (DrawSource.draw source).1 0.0 [growth] = .selected growth := by
    have htotal : (0.0 + growth.probability : Float) = 1.0 := by decide +kernel
    rw [select, htotal]
    exact if_pos h
  rw [deriveAt_run, hcandidates]
  simp only [hselect, hword]
  rfl

/-- Without a draw `B` stays. -/
theorem deriveAt_growing_snd : (deriveAt growing.productions growingSites.2).run source =
    (.ok (.unmatched (.plain 'B')), source) := by
  have hcandidates : candidates growingSites.2 growing.productions = .ok [] :=
    toOption_eq_some.1 (by decide +kernel)
  rw [deriveAt_run, hcandidates]
  rfl

/-- If the draw is below 1, the next word is `ABB`. -/
theorem after_one_growing (h : (DrawSource.draw source).1 < 1.0) :
    ((growingFrom source).after 1).current = [.plain 'A', .plain 'B', .plain 'B'] := by
  have hsites : sites growing.initial = [growingSites.1, growingSites.2] := by decide +kernel
  have hderive : (derive growing.productions growing.initial).run source =
      (.ok [.replaced [.plain 'A', .plain 'B'], .unmatched (.plain 'B')],
        (DrawSource.draw source).2) := by
    rw [derive, hsites, derive_run_cons, deriveAt_growing_fst source h]
    simp only
    rw [derive_run_cons, deriveAt_growing_snd]
    rfl
  rw [LSystem.after_one, LSystem.generate_eq, growingFrom]
  simp only [hderive]
  rfl

end

/-- The limit is 1 and the word of the axiom has two symbols, yet a line of input rewrites it. -/
theorem interactive_rewrites_long_axiom :
    ∃ after : Session,
      (grammarPath { grammar := some "g" } >>= readGrammar :
        Attempt (StateM Session) Grammar).run waiting = (.ok growing, waiting) ∧
      Beyond (some 1) growing.initial ∧
      (generate {
          grammar := some "g", seed := some (.value 0), maxLength := some (.value 1)
          interactive := true } : Attempt (StateM Session) Unit).run waiting = (.ok (), after) ∧
      after.output = "0: AB\n1: ABB\n" := by
  have hsystem := ofGrammar_growing (Twister.ofSeed 0)
  have hlimit : ∀ bound ∈ (some 1 : Option Int), 0 < bound := by decide
  obtain ⟨last, after, hrun, houtput, hlast⟩ :=
    run_interact (LSystem.isNew_of_create hsystem) (some 1) waiting
  have hnext := after_one_growing (Twister.ofSeed 0) (Twister.draw_lt_one _).2
  have hbeyond : Beyond (some 1) ((growingFrom (Twister.ofSeed 0)).after 1).current := by
    rw [hnext]
    exact ⟨1, rfl, by decide⟩
  have hwishes : wishes (inputLines waiting.input) = 2 := by decide +kernel
  have hone : last = 1 := by
    rw [LSystem.firstBeyond_eq_zero hbeyond, hwishes, zero_add, min_eq_right (by decide)] at hlast
    exact_mod_cast hlast
  refine ⟨after, readGrammar_waiting, ⟨1, rfl, by decide⟩,
    (run_generate readGrammar_waiting hsystem hlimit 0 true).trans hrun, ?_⟩
  rw [houtput, hone, transcript_succ, transcript_succ, transcript_zero, hnext]
  decide +kernel

end Lindenmayer.CommandLine
