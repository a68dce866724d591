/-
  LoxLang.Proofs.Console.Invariant
  ────────────────────────────────
  **A console is at rest between any two lines.**  Whatever was typed before, and however it
  ended: no input waits to be run and no result to be shown, the reporter is working on
  nothing, and the prompt tells whether lines are held back.  No failure gets out.

  A session at rest is told by its machine (`Session.resting`), so that the invariant is one
  equation; and the machine is one that corresponds to a machine of the checked evaluator,
  so that no input runs into a fault (`Machine.Sound`).  Submitting an input keeps both, on
  each of the ways that an input can go.
-/
import LoxLang.Proofs.Console.Feeding
import LoxLang.Proofs.Scope.Alignment
import LoxLang.Proofs.Session.History
import Mathlib.Data.List.Induction

namespace LoxLang

/-! ## §1. Machines between inputs. -/

namespace Machine

/-- No code is running on the machine, and a machine of the checked evaluator corresponds
to it. -/
def Sound (n : Machine) : Prop :=
  ∃ m : Machine Site, Related m n ∧ m.locals = none

/-- The initial machine is sound. -/
theorem sound_initial : Sound .initial :=
  ⟨.initial, ⟨Heap.rel_empty .nil, rfl, rfl, rfl⟩, rfl⟩

/-- Output is taken from a machine without harm. -/
theorem Sound.withOutput {n : Machine} (h : n.Sound) (output : String) :
    Sound { n with output } := by
  obtain ⟨m, ⟨hheap, hglobals, hlocals, -⟩, htop⟩ := h
  exact ⟨{ m with output }, ⟨hheap, hglobals, hlocals, rfl⟩, htop⟩

/-- An accepted input runs without a fault, and leaves the machine sound. -/
theorem Sound.run {n : Machine} (h : n.Sound) {source : String} {line : Int}
    {program : List Stmt} (hprogram : freshProgram source line = .ok program) (limits : Limits) :
    (n.run limits program).1 ≠ .error .fault ∧ (n.run limits program).2.Sound := by
  obtain ⟨m, hrelated, htop⟩ := h
  unfold freshProgram at hprogram
  rcases hread : readProgram source line with d | body
  · rw [hread] at hprogram
    cases hprogram
  rw [hread] at hprogram
  dsimp only at hprogram
  rcases hresolve : (Resolver.initial.resolve body).1 with e | resolved
  · rw [hresolve] at hprogram
    cases hprogram
  rw [hresolve] at hprogram
  obtain rfl := Except.ok.inj hprogram
  have hrun := run_mirrored ⟨source, line, limits, body, resolved, hread, hresolve⟩ hrelated htop
  obtain ⟨hfault, hsame, hrelated'⟩ := hrun
  refine ⟨?_, _, hrelated', Checked.locals_run htop limits body⟩
  -- the machine stops for the reason for which the checked evaluator stops
  intro hstop
  simp only [hstop] at hsame
  rcases hchecked : (Checked.run m limits body).1 with halt | v
  · rw [hchecked] at hfault hsame
    have hhalt : halt = .fault := hsame
    exact hfault (congrArg Except.error hhalt)
  · rw [hchecked] at hsame
    exact hsame.elim

end Machine

/-! ## §2. Sessions at rest. -/

namespace Session

/-- A session on typed inputs, with no input waiting, under work or with a result. -/
def resting (paint : Text.Colouring) (limits : Limits) (machine : Machine) : Session :=
  { path := typedPath, interactive := true, limits, resolver := .initial, machine, queue := []
    results := [], reporter := ⟨false, paint, [(typedPath, none)], []⟩ }

variable {paint : Text.Colouring} {limits : Limits} {machine : Machine}

/-- A session on typed inputs starts at rest. -/
theorem start_typed (fatal : Bool) (paint : Text.Colouring) (limits : Limits) :
    start (.new fatal paint) typedPath none true limits
      = .ok (resting paint limits .initial) :=
  rfl

/-- A session at rest takes further inputs. -/
theorem ready_resting : (resting paint limits machine).Ready :=
  ⟨rfl, rfl⟩

/-- What a session at rest holds. -/
theorem holding_resting (m : Machine) :
    (resting paint limits machine).holding ⟨m, [], [], none⟩ = resting paint limits m := by
  simp [holding, resting, putEntry]

/-- An error is reported, and then the session is at rest again. -/
theorem settle_holding (paint : Text.Colouring) (limits : Limits) (machine m : Machine)
    (entry : Option Progress) {failure : Failure}
    (h : (∃ d, failure = .diagnosed d) ∨ failure = .tooDeep) :
    ∃ report reporter,
      ((resting paint limits machine).holding ⟨m, [], [], entry⟩).reporter.settle failure
          = (report, .ok (), reporter)
        ∧ { (resting paint limits machine).holding ⟨m, [], [], entry⟩ with reporter }
          = resting paint limits m := by
  rcases h with ⟨d, rfl⟩ | rfl
  · refine ⟨_, _, rfl, ?_⟩
    simp [holding, resting, putEntry, Reporter.clear]
  · refine ⟨_, _, rfl, ?_⟩
    simp [holding, resting, putEntry, Reporter.clear]

end Session

/-! ## §3. Submissions. -/

namespace Console

open Session

variable {paint : Text.Colouring} {limits : Limits} {machine : Machine}

/-- An input that is run on a session at rest leaves no queue and no result; a failure is
one of its own, and without a failure no input is named. -/
theorem evaluate_resting (paint : Text.Colouring) (limits : Limits) (h : machine.Sound)
    (source : String) (line : Int) :
    ∃ result m entry,
      evaluate (resting paint limits machine) source line
          = (result, (resting paint limits machine).holding ⟨m, [], [], entry⟩)
        ∧ m.Sound
        ∧ match result with
          | .ok _ => entry = none
          | .error failure => (∃ d, failure = .diagnosed d) ∨ failure = .tooDeep := by
  have hready : (resting paint limits machine).Ready := ready_resting
  have hadd := add_holding hready ⟨machine, [], [], none⟩ source line
  rw [holding_resting] at hadd
  unfold evaluate
  rcases hprogram : freshProgram source line with d | program
  · rw [hprogram] at hadd
    rw [hadd]
    exact ⟨_, machine, _, rfl, h, .inl ⟨d, rfl⟩⟩
  rw [hprogram] at hadd
  rw [hadd]
  -- the run takes the input off the queue
  have hrun : ((resting paint limits machine).holding
      ⟨machine, [⟨program, source, line⟩], [], none⟩).run
      = ((resting paint limits machine).holding ⟨machine, [], [], none⟩).runAll
          [⟨program, source, line⟩] := rfl
  simp only [List.nil_append, hrun, runAll_cons_holding hready]
  obtain ⟨hfault, hsound⟩ := h.run hprogram limits
  have hlimits : (resting paint limits machine).limits = limits := rfl
  rw [hlimits]
  rcases hmachine : machine.run limits program with ⟨halt | v, m⟩
  · rw [hmachine] at hfault hsound
    refine ⟨_, m, _, rfl, hsound, ?_⟩
    cases halt with
    | error e => exact .inl ⟨_, rfl⟩
    | exhausted => exact .inr rfl
    | fault => exact absurd rfl hfault
  · rw [hmachine] at hsound
    exact ⟨.ok v, m, none, rfl, hsound, rfl⟩

/-- **A submission leaves the session at rest**, and lets no failure out. -/
theorem submit_resting (paint : Text.Colouring) (limits : Limits) (h : machine.Sound)
    (source : String) (line : Int) :
    ∃ reply m, submit (resting paint limits machine) source line
        = (reply, resting paint limits m) ∧ m.Sound ∧ reply.failure = none := by
  obtain ⟨result, m, entry, hevaluate, hsound, hresult⟩ :=
    evaluate_resting paint limits h source line
  have htake : ((resting paint limits machine).holding ⟨m, [], [], entry⟩).takeOutput
      = (m.output, (resting paint limits machine).holding
          ⟨{ m with output := "" }, [], [], entry⟩) := rfl
  unfold submit
  simp only [hevaluate, htake]
  cases result with
  | ok v =>
    cases hresult
    exact ⟨_, _, by rw [holding_resting], hsound.withOutput "", rfl⟩
  | error failure =>
    obtain ⟨report, reporter, hsettle, hback⟩ :=
      settle_holding paint limits machine { m with output := "" } entry hresult
    simp only [hsettle, hback]
    exact ⟨_, _, rfl, hsound.withOutput "", rfl⟩

/-- No input ends a conversation. -/
theorem stop_submit (s : Session) (source : String) (line : Int) :
    (submit s source line).1.stop = false := by
  unfold submit
  dsimp only
  split
  · rfl
  · split
    · rfl
    · rfl

/-! ## §4. One line, and all lines. -/

/-- The session is at rest, and the prompt tells whether lines are held back. -/
structure AtRest (paint : Text.Colouring) (limits : Limits) (c : Console) : Prop where
  session : ∃ m, m.Sound ∧ c.session = resting paint limits m
  prompt : c.prompt = .continuation ↔ c.held ≠ ""

/-- The step: whatever line is fed, the console is at rest behind it, and no failure gets out. -/
theorem AtRest.feed {c : Console} (h : c.AtRest paint limits) (line : String) :
    (c.feed line).2.AtRest paint limits ∧ (c.feed line).1.failure = none := by
  have hfed := fed c line
  generalize c.feed line = outcome at hfed ⊢
  cases hfed with
  | ended => exact ⟨⟨h.session, by simp⟩, rfl⟩
  | commanded _ _ _ hfailure => exact ⟨h, hfailure⟩
  | heldBack => exact ⟨⟨h.session, by simp⟩, rfl⟩
  | submitted _ _ hsubmit =>
    obtain ⟨machine, hsound, hsession⟩ := h.session
    obtain ⟨reply, m, hsubmit', hsound', hfailure⟩ :=
      submit_resting paint limits hsound (Text.trimEnd (c.held ++ line)) c.firstLine
    rw [hsession, hsubmit'] at hsubmit
    cases hsubmit
    exact ⟨⟨⟨m, hsound', rfl⟩, by simp⟩, hfailure⟩

/-- The run: by induction on the row of lines, the last one fed by the step. -/
theorem AtRest.feedAll {c : Console} (h : c.AtRest paint limits) (lines : List String) :
    (c.after lines).AtRest paint limits
      ∧ ∀ reply ∈ (c.feedAll lines).1, reply.failure = none := by
  induction lines using List.reverseRecOn with
  | nil => exact ⟨h, nofun⟩
  | append_singleton lines line ih =>
    obtain ⟨hrest, hfailures⟩ := ih
    obtain ⟨hrest', hfailure⟩ := hrest.feed line
    rw [after_concat, feedAll_concat]
    refine ⟨hrest', ?_⟩
    intro reply hreply
    rcases List.mem_append.1 hreply with hbefore | hlast
    · exact hfailures reply hbefore
    · rw [List.mem_singleton.1 hlast]
      exact hfailure

/-- Every line that is taken in counts, and no other does. -/
theorem lineCount_after (c : Console) (lines : List String) :
    (c.after lines).lineCount = c.lineCount + (c.taken lines).length := by
  induction lines using List.reverseRecOn with
  | nil => rfl
  | append_singleton lines line ih =>
    rw [after_concat, taken_concat, List.length_append, ← Nat.add_assoc, ← ih]
    have hfed := fed (c.after lines) line
    generalize (c.after lines).feed line = outcome at hfed ⊢
    cases hfed with
    | ended heof => rw [if_neg fun h : Takes _ _ => h.1 heof]; rfl
    | commanded _ hidle hcommand => rw [if_neg fun h : Takes _ _ => h.2 hidle hcommand]; rfl
    | heldBack htakes => rw [if_pos htakes]; rfl
    | submitted htakes => rw [if_pos htakes]; rfl

/-- Only two commands end a conversation, one of them where nothing is held back. -/
theorem stop_feed_iff (c : Console) (line : String) :
    (c.feed line).1.stop = true
      ↔ Text.trim line = "EOF" ∨ c.held = "" ∧ Text.trim line = "exit" := by
  have hfed := fed c line
  generalize c.feed line = outcome at hfed ⊢
  cases hfed with
  | ended heof => simp [heof]
  | commanded heof hidle _ _ hstop => simp [heof, hidle, hstop]
  | heldBack htakes =>
    have hexit : ¬ (c.held = "" ∧ Text.trim line = "exit") := by
      rintro ⟨hidle, hexit⟩
      exact htakes.2 hidle (by simp [hexit])
    simp [htakes.1, hexit]
  | submitted htakes _ hsubmit =>
    have hexit : ¬ (c.held = "" ∧ Text.trim line = "exit") := by
      rintro ⟨hidle, hexit⟩
      exact htakes.2 hidle (by simp [hexit])
    have hstop := stop_submit c.session (Text.trimEnd (c.held ++ line)) c.firstLine
    simp only [hsubmit] at hstop
    simp [htakes.1, hexit, hstop]

/-- The end of input drops what was held back. -/
theorem feed_of_eof (c : Console) {line : String} (h : Text.trim line = "EOF") :
    (c.feed line).2.held = "" ∧ (c.feed line).2.prompt = .primary := by
  rw [feed, if_pos h]
  exact ⟨rfl, rfl⟩

/-! ## §5. Lines held back. -/

/-- Behind `lines`, the console holds back the last of them, `typed`: it held nothing back
before, and from then on always the lines typed so far, with a brace left open. -/
def HoldsBack (c : Console) (lines : List String) : Prop :=
  ∃ before typed, lines = before ++ typed ∧ typed ≠ [] ∧ (c.after before).held = ""
    ∧ ∀ front, front <+: typed → front ≠ [] →
        (c.after (before ++ front)).held = Text.ended front
          ∧ hasOpenBrace (Text.ended front) = true

/-- What is held back are all lines since the console last held nothing. -/
theorem holdsBack_of_held_ne {c : Console} (hc : c.held = "") (lines : List String)
    (h : (c.after lines).held ≠ "") : c.HoldsBack lines := by
  induction lines using List.reverseRecOn with
  | nil => exact absurd hc h
  | append_singleton lines line ih =>
    have hafter := after_concat c lines line
    have hfed := fed (c.after lines) line
    rw [hafter] at h
    generalize (c.after lines).feed line = outcome at hafter hfed h
    -- only a line that leaves a brace open leaves something held back
    cases hfed with
    | ended => exact absurd rfl h
    | commanded _ hidle => exact absurd hidle h
    | submitted => exact absurd rfl h
    | heldBack _ hopen =>
      by_cases hidle : (c.after lines).held = ""
      · refine ⟨lines, [line], rfl, by simp, hidle, ?_⟩
        intro front hfront hne
        have hall : front = [line] := by
          rcases List.prefix_concat_iff.1 (show front <+: [] ++ [line] from hfront) with hall | hnil
          · exact hall
          · exact absurd (List.prefix_nil.1 hnil) hne
        rw [hidle] at hopen
        rw [hall, hafter, show [line] = [] ++ [line] from rfl, Text.ended_concat,
          hasOpenBrace_append_newline]
        exact ⟨by rw [hidle]; rfl, hopen⟩
      · obtain ⟨before, typed, rfl, hne, hbefore, hheld⟩ := ih hidle
        refine ⟨before, typed ++ [line], List.append_assoc .., by simp, hbefore, ?_⟩
        intro front hfront hfrontNe
        rcases List.prefix_concat_iff.1 hfront with hall | hshorter
        · have hsofar := (hheld typed List.prefix_rfl hne).1
          rw [hsofar] at hopen
          rw [hall, ← List.append_assoc, hafter, Text.ended_concat, hasOpenBrace_append_newline]
          exact ⟨by rw [hsofar], hopen⟩
        · exact hheld front hshorter hfrontNe

/-! ## §6. Conversations. -/

/-- What a console shows of itself between two lines. -/
structure Settled (c : Console) : Prop where
  prompt : c.prompt = .continuation ↔ c.held ≠ ""
  queue : c.session.queue = []
  results : c.session.results = []
  entries : ∀ entry ∈ c.session.reporter.entries, entry.2 = none
  fatal : c.session.reporter.fatal = false

/-- What the state at rest comes to, item by item. -/
theorem AtRest.settled {c : Console} (h : c.AtRest paint limits) : c.Settled := by
  obtain ⟨m, -, hsession⟩ := h.session
  refine ⟨h.prompt, ?_, ?_, ?_, ?_⟩
  · rw [hsession]; rfl
  · rw [hsession]; rfl
  · rw [hsession]
    intro entry hentry
    rw [List.mem_singleton.1 hentry]
  · rw [hsession]; rfl

/-- **A console stays settled.**  A session on typed inputs starts, and whatever lines its
console is then fed: no failure gets out; the console is settled; what it holds back are the
last lines, which leave a brace open, and did so from the first of them on; and it counts the
lines that it takes in, which are those that are entered.  The end of input stops it and drops
what it holds back; apart from that, only `exit` stops it, where nothing is held back. -/
theorem consoles_stay_settled (fatal : Bool) (paint : Text.Colouring) (limits : Limits) :
    ∃ s, Session.start (.new fatal paint) Session.typedPath none true limits = .ok s
      ∧ ∀ lines : List String,
          let c := (Console.initial s).after lines
          (∀ reply ∈ ((Console.initial s).feedAll lines).1, reply.failure = none)
          ∧ c.Settled
          ∧ (c.held ≠ "" → (Console.initial s).HoldsBack lines)
          ∧ c.lineCount = ((Console.initial s).taken lines).length
          ∧ ∀ line,
              (c.Takes line → c.feed line = c.enter line)
              ∧ ((c.feed line).1.stop = true
                  ↔ Text.trim line = "EOF" ∨ c.held = "" ∧ Text.trim line = "exit")
              ∧ (Text.trim line = "EOF" →
                  (c.feed line).2.held = "" ∧ (c.feed line).2.prompt = .primary) := by
  refine ⟨_, Session.start_typed fatal paint limits, ?_⟩
  intro lines c
  have hstart : (Console.initial (Session.resting paint limits .initial)).AtRest paint limits :=
    ⟨⟨_, Machine.sound_initial, rfl⟩, by simp [Console.initial]⟩
  obtain ⟨hrest, hfailures⟩ := hstart.feedAll lines
  refine ⟨hfailures, hrest.settled, holdsBack_of_held_ne rfl lines, ?_, ?_⟩
  · show (Console.after _ lines).lineCount = _
    rw [lineCount_after]
    exact Nat.zero_add _
  · intro line
    exact ⟨feed_of_takes, stop_feed_iff c line, feed_of_eof c⟩

end Console

end LoxLang
