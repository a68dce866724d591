/-
  LoxLang.Proofs.Session.History
  ──────────────────────────────
  **What a session does, told as a ledger.**  A ledger holds what a session on typed
  inputs can change: the machine, the queue, the results, and the input that a report
  would name.  The rules of `Ledger.Does` say what each step writes into it:

    • a refused input changes nothing but the name that a report would give,
    • an accepted one is queued, as a resolver that never saw another input leaves it,
    • a run takes the queued inputs in order, up to the first that stops half-way, and
      leaves the queue empty.

  A session does exactly this, whatever its earlier steps were and however they ended:
  the one resolver, machine, queue and reporter that all inputs share carry nothing from
  one input to the next but what the ledger shows.
-/
import LoxLang.Proofs.Scope.Unwinding
import LoxLang.Session
import Mathlib.Data.List.InsertIdx

namespace LoxLang

/-! ## §1. Steps of a session. -/

/-- What a session can be asked to do. -/
inductive Session.Step where
  | add (source : String) (line : Int)
  | run

namespace Session

/-- One step of a session. -/
def take (s : Session) : Step → Except Failure Unit × Session
  | .add source line => s.add source line
  | .run => s.run

/-- How each of a row of steps ends, with the session behind it; a failed step does not
keep the next from being taken. -/
def history (s : Session) : List Step → List (Except Failure Unit × Session)
  | [] => []
  | step :: rest => s.take step :: (s.take step).2.history rest

/-- What a step leaves behind, apart from what a report would name. -/
def effects (outcome : Except Failure Unit × Session) :
    Except Failure Unit × Machine × List QueuedInput × List Value :=
  (outcome.1, outcome.2.machine, outcome.2.queue, outcome.2.results)

end Session

/-- What an input comes to if nothing was read before it. -/
def freshProgram (source : String) (line : Int) : Except Diagnostic (List Stmt) :=
  match readProgram source line with
  | .error d => .error d
  | .ok body =>
      match (Resolver.initial.resolve body).1 with
      | .error e => .error (.ofResolve e)
      | .ok program => .ok program

/-! ## §2. The ledger. -/

/-- What the steps of a session change. -/
structure Ledger where
  machine : Machine
  queue : List QueuedInput
  results : List Value
  /-- The input that a report would name. -/
  entry : Option Progress

/-- These inputs run to their ends, one on the machine that the other left, and these
are their values. -/
inductive Completes (limits : Limits) : Machine → List QueuedInput → List Value → Machine → Prop
  | nil {m : Machine} : Completes limits m [] [] m
  | cons {m m₁ m₂ : Machine} {input : QueuedInput} {rest : List QueuedInput} {v : Value}
      {vs : List Value} (head : m.run limits input.program = (.ok v, m₁))
      (tail : Completes limits m₁ rest vs m₂) : Completes limits m (input :: rest) (v :: vs) m₂

namespace Ledger

open Session (Step)

/-- What a step writes into the ledger, and how it ends. -/
inductive Does (limits : Limits) : Ledger → Step → Except Failure Unit → Ledger → Prop
  /-- A refused input is named, and nothing else. -/
  | refused {l : Ledger} {source : String} {line : Int} {d : Diagnostic}
      (refusal : freshProgram source line = .error d) :
      Does limits l (.add source line) (.error (.diagnosed d))
        { l with entry := some ⟨source, line⟩ }
  /-- An accepted input is queued, and none is named. -/
  | queued {l : Ledger} {source : String} {line : Int} {program : List Stmt}
      (accepted : freshProgram source line = .ok program) :
      Does limits l (.add source line) (.ok ())
        { l with queue := l.queue ++ [⟨program, source, line⟩], entry := none }
  /-- A run of no inputs changes nothing. -/
  | idle {l : Ledger} (queue : l.queue = []) : Does limits l .run (.ok ()) l
  /-- Inputs that all run to their ends leave one result each. -/
  | completed {l : Ledger} {m : Machine} {vs : List Value} (queue : l.queue ≠ [])
      (ended : Completes limits l.machine l.queue vs m) :
      Does limits l .run (.ok ()) ⟨m, [], l.results ++ vs, none⟩
  /-- The first input that stops half-way is named, and those behind it are dropped;
  what it did and what was done before it stays. -/
  | stopped {l : Ledger} {done dropped : List QueuedInput} {input : QueuedInput}
      {m m' : Machine} {vs : List Value} {halt : Halt}
      (queue : l.queue = done ++ input :: dropped)
      (ended : Completes limits l.machine done vs m)
      (halts : m.run limits input.program = (.error halt, m')) :
      Does limits l .run (.error (.ofHalt halt))
        ⟨m', [], l.results ++ vs, some ⟨input.source, input.line⟩⟩

/-- How each of a row of steps ends, with the ledger behind it. -/
inductive Recounts (limits : Limits) :
    Ledger → List Step → List (Except Failure Unit × Ledger) → Prop
  | nil {l : Ledger} : Recounts limits l [] []
  | cons {l l' : Ledger} {step : Step} {steps : List Step} {result : Except Failure Unit}
      {outcomes : List (Except Failure Unit × Ledger)} (head : l.Does limits step result l')
      (tail : Recounts limits l' steps outcomes) :
      Recounts limits l (step :: steps) ((result, l') :: outcomes)

/-- The ledger of a session on the file at `path`, which is queued; inputs that are typed
in are yet to come. -/
inductive Opens (path : String) (bytes : Option (List UInt8)) : Ledger → Prop
  | typed (isTyped : path = Session.typedPath) : Opens path bytes ⟨.initial, [], [], none⟩
  | file {source : String} {program : List Stmt} (isFile : path ≠ Session.typedPath)
      (text : Session.fileText path bytes = .ok source)
      (accepted : freshProgram source 1 = .ok program) :
      Opens path bytes ⟨.initial, [⟨program, source, 1⟩], [], none⟩

/-! ## §3. The rules cover every step. -/

/-- A queue is run to its end, or up to an input that stops. -/
theorem completes_or_stops (limits : Limits) : ∀ (queue : List QueuedInput) (m : Machine),
    (∃ vs m', Completes limits m queue vs m')
      ∨ ∃ done input dropped vs m₁ halt m', queue = done ++ input :: dropped
          ∧ Completes limits m done vs m₁ ∧ m₁.run limits input.program = (.error halt, m') := by
  intro queue
  induction queue with
  | nil => exact fun m => .inl ⟨[], m, .nil⟩
  | cons input rest ih =>
    intro m
    rcases hrun : m.run limits input.program with ⟨halt | v, m₁⟩
    · exact .inr ⟨[], input, rest, [], m, halt, m₁, rfl, .nil, hrun⟩
    · rcases ih m₁ with ⟨vs, m', h⟩ | ⟨done, next, dropped, vs, m₂, halt, m', rfl, h, hhalt⟩
      · exact .inl ⟨v :: vs, m', .cons hrun h⟩
      · exact .inr ⟨input :: done, next, dropped, v :: vs, m₂, halt, m', rfl, .cons hrun h, hhalt⟩

/-- The rules leave no step out. -/
theorem exists_does (limits : Limits) (l : Ledger) (step : Step) :
    ∃ result l', l.Does limits step result l' := by
  cases step with
  | add source line =>
    rcases h : freshProgram source line with d | program
    · exact ⟨_, _, .refused h⟩
    · exact ⟨_, _, .queued h⟩
  | run =>
    by_cases hqueue : l.queue = []
    · exact ⟨_, _, .idle hqueue⟩
    · rcases completes_or_stops limits l.queue l.machine with
        ⟨vs, m, h⟩ | ⟨done, input, dropped, vs, m, halt, m', heq, h, hhalt⟩
      · exact ⟨_, _, .completed hqueue h⟩
      · exact ⟨_, _, .stopped heq h hhalt⟩

/-- The rules leave no row of steps out. -/
theorem exists_recounts (limits : Limits) : ∀ (steps : List Step) (l : Ledger),
    ∃ outcomes, l.Recounts limits steps outcomes := by
  intro steps
  induction steps with
  | nil => exact fun l => ⟨[], .nil⟩
  | cons step steps ih =>
    intro l
    obtain ⟨result, l', hstep⟩ := exists_does limits l step
    obtain ⟨outcomes, hrest⟩ := ih l'
    exact ⟨_, .cons hstep hrest⟩

/-! ## §4. A refused input can be left out. -/

/-- The ledger without the input that a report would name. -/
def unnamed (l : Ledger) : Ledger :=
  { l with entry := none }

/-- What a step writes, apart from the name, does not depend on the name. -/
theorem Does.of_unnamed {limits : Limits} {l l' k : Ledger} {step : Step}
    {result : Except Failure Unit} (h : l.Does limits step result l')
    (hk : k.unnamed = l.unnamed) :
    ∃ k', k.Does limits step result k' ∧ k'.unnamed = l'.unnamed := by
  obtain ⟨machine, queue, results, entry⟩ := l
  obtain ⟨machine', queue', results', entry'⟩ := k
  cases hk
  cases h with
  | refused h => exact ⟨_, .refused h, rfl⟩
  | queued h => exact ⟨_, .queued h, rfl⟩
  | idle h => exact ⟨_, .idle h, rfl⟩
  | completed h hdone => exact ⟨_, .completed h hdone, rfl⟩
  | stopped h hdone hhalt => exact ⟨_, .stopped h hdone hhalt, rfl⟩

/-- Two ledgers that differ in the entry alone go on alike. -/
theorem Recounts.of_unnamed {limits : Limits} : ∀ {steps : List Step} {l k : Ledger}
    {outcomes : List (Except Failure Unit × Ledger)}, l.Recounts limits steps outcomes →
      k.unnamed = l.unnamed →
      ∃ outcomes', k.Recounts limits steps outcomes'
        ∧ outcomes'.map (Prod.map id unnamed) = outcomes.map (Prod.map id unnamed) := by
  intro steps
  induction steps with
  | nil =>
    intro l k outcomes h hk
    cases h
    exact ⟨[], .nil, rfl⟩
  | cons step steps ih =>
    intro l k outcomes h hk
    cases h with
    | cons hstep hrest =>
      obtain ⟨k', hstep', hk'⟩ := hstep.of_unnamed hk
      obtain ⟨outcomes', hrest', heq⟩ := ih hrest hk'
      refine ⟨_, .cons hstep' hrest', ?_⟩
      simp [hk', heq]

/-- A refused input may be left out anywhere: all other steps come out as they did. -/
theorem Recounts.eraseIdx {limits : Limits} {source : String} {line : Int} {d : Diagnostic}
    (hd : freshProgram source line = .error d) {after : List Step} :
    ∀ {before : List Step} {l : Ledger} {outcomes : List (Except Failure Unit × Ledger)},
      l.Recounts limits (before ++ .add source line :: after) outcomes →
      ∃ outcomes', l.Recounts limits (before ++ after) outcomes'
        ∧ outcomes'.map (Prod.map id unnamed)
            = (outcomes.eraseIdx before.length).map (Prod.map id unnamed) := by
  intro before
  induction before with
  | nil =>
    intro l outcomes h
    cases h with
    | cons hstep hrest =>
      cases hstep with
      | refused => exact hrest.of_unnamed rfl
      | queued h =>
        rw [h] at hd
        cases hd
  | cons step before ih =>
    intro l outcomes h
    cases h with
    | cons hstep hrest =>
      obtain ⟨outcomes', hrest', heq⟩ := ih hrest
      refine ⟨_, .cons hstep hrest', ?_⟩
      simp [heq]

end Ledger

/-! ## §5. Sessions keep the ledger. -/

/-- The last entry under a key stays. -/
theorem putEntry_putEntry {α : Type} (key : String) (a b : α) (entries : List (String × α)) :
    putEntry key b (putEntry key a entries) = putEntry key b entries := by
  induction entries with
  | nil => simp [putEntry]
  | cons head rest ih =>
    obtain ⟨k, c⟩ := head
    by_cases hk : k = key
    · simp [putEntry, hk]
    · simp [putEntry, hk, ih]

/-- An entry can be read off. -/
theorem putEntry_injective {α : Type} {key : String} {a b : α} {entries : List (String × α)}
    (h : putEntry key a entries = putEntry key b entries) : a = b := by
  induction entries with
  | nil => simpa [putEntry] using h
  | cons head rest ih =>
    obtain ⟨k, c⟩ := head
    by_cases hk : k = key
    · simpa [putEntry, hk] using h
    · exact ih (by simpa [putEntry, hk] using h)

namespace Session

/-- The session with what the ledger holds in the place of its own. -/
def holding (s : Session) (l : Ledger) : Session :=
  { s with
    machine := l.machine
    queue := l.queue
    results := l.results
    reporter := { s.reporter with entries := putEntry s.path l.entry s.reporter.entries } }

/-- A session tells what its ledger is. -/
theorem holding_injective {s : Session} {l k : Ledger} (h : s.holding l = s.holding k) :
    l = k := by
  obtain ⟨machine, queue, results, entry⟩ := l
  obtain ⟨machine', queue', results', entry'⟩ := k
  simp only [holding, Session.mk.injEq, Reporter.mk.injEq, true_and, and_true] at h
  obtain ⟨hentries, rfl, rfl, rfl⟩ := h
  cases putEntry_injective hentries
  rfl

/-- Of two ledgers put in, the last one stays. -/
@[simp] theorem holding_holding (s : Session) (l k : Ledger) :
    (s.holding l).holding k = s.holding k := by
  simp only [holding, putEntry_putEntry]

@[simp] theorem finish_holding (s : Session) (l : Ledger) :
    (s.holding l).finish = s.holding { l with entry := none } := by
  simp only [holding, finish, Reporter.endInput, putEntry_putEntry]

/-- The session takes typed inputs, and its resolver is in no scope. -/
structure Ready (s : Session) : Prop where
  interactive : s.interactive = true
  resolver : s.resolver = .initial

/-- Beginning an input puts it into the entry. -/
theorem begin_holding {s : Session} (hs : s.Ready) (l : Ledger) (source : String) (line : Int) :
    (s.holding l).begin source line = s.holding { l with entry := some ⟨source, line⟩ } := by
  have hinteractive : (s.holding l).interactive = true := hs.interactive
  rw [begin, if_pos hinteractive]
  simp only [holding, Reporter.beginInput, putEntry_putEntry]

/-- Adding an input does what its program asks for, if nothing was read before it. -/
theorem add_holding {s : Session} (hs : s.Ready) (l : Ledger) (source : String) (line : Int) :
    (s.holding l).add source line = match freshProgram source line with
      | .error d => (.error (.diagnosed d), s.holding { l with entry := some ⟨source, line⟩ })
      | .ok program => (.ok (), s.holding { l with
          queue := l.queue ++ [⟨program, source, line⟩], entry := none }) := by
  have hresolver : ∀ l', (s.holding l').resolver = .initial := fun l' => hs.resolver
  rw [add, begin_holding hs, freshProgram]
  rcases readProgram source line with d | body
  · rfl
  · -- the resolver is back in no scope, whether it refused the input or not
    have hback : (Resolver.initial.resolve body).2 = s.resolver := by
      rw [resolve_initial, hs.resolver]
    simp only [hresolver]
    rcases h : Resolver.initial.resolve body with ⟨e | program, r⟩
    · rw [h] at hback
      cases hback
      rfl
    · rw [h] at hback
      cases hback
      exact congrArg (Prod.mk _) (finish_holding s
        ⟨l.machine, l.queue ++ [⟨program, source, line⟩], l.results, some ⟨source, line⟩⟩)

/-- One input of a run. -/
theorem runAll_cons_holding {s : Session} (hs : s.Ready) (l : Ledger) (input : QueuedInput)
    (rest : List QueuedInput) :
    (s.holding l).runAll (input :: rest) = match l.machine.run s.limits input.program with
      | (.error halt, m) => (.error (.ofHalt halt), s.holding { l with
          machine := m, entry := some ⟨input.source, input.line⟩ })
      | (.ok v, m) => (s.holding { l with
          machine := m, results := l.results ++ [v], entry := none }).runAll rest := by
  rw [runAll, begin_holding hs]
  have hsame : (s.holding { l with entry := some ⟨input.source, input.line⟩ }).machine.run
      (s.holding { l with entry := some ⟨input.source, input.line⟩ }).limits input.program
      = l.machine.run s.limits input.program := rfl
  simp only [hsame]
  rcases l.machine.run s.limits input.program with ⟨halt | v, m⟩
  · rfl
  · exact congrArg (·.runAll rest) (finish_holding s
      ⟨m, l.queue, l.results ++ [v], some ⟨input.source, input.line⟩⟩)

/-- Inputs that run to their ends are behind the session, and none is named any more. -/
theorem runAll_holding {s : Session} (hs : s.Ready) {m m' : Machine} {done : List QueuedInput}
    {vs : List Value} (h : Completes s.limits m done vs m') :
    ∀ (rest queue : List QueuedInput) (results : List Value) (entry : Option Progress),
      (s.holding ⟨m, queue, results, entry⟩).runAll (done ++ rest)
        = (s.holding
            ⟨m', queue, results ++ vs, if done = [] then entry else none⟩).runAll rest := by
  induction h with
  | nil =>
    intro rest queue results entry
    rw [List.append_nil]
    rfl
  | @cons m m₁ m₂ input more v vs head tail ih =>
    intro rest queue results entry
    have hresults : results ++ v :: vs = results ++ [v] ++ vs := by
      simp
    rw [List.cons_append, runAll_cons_holding hs]
    dsimp only
    rw [head]
    dsimp only
    rw [ih, hresults]
    simp

/-- **One step of a session writes what the ledger's rules say**, and nothing else. -/
theorem take_holding {s : Session} (hs : s.Ready) {l l' : Ledger} {step : Step}
    {result : Except Failure Unit} (h : l.Does s.limits step result l') :
    (s.holding l).take step = (result, s.holding l') := by
  cases h with
  | refused h =>
    rw [take, add_holding hs, h]
  | queued h =>
    rw [take, add_holding hs, h]
  | idle hqueue =>
    obtain ⟨machine, queue, results, entry⟩ := l
    cases hqueue
    rfl
  | @completed m vs hqueue hdone =>
    obtain ⟨machine, queue, results, entry⟩ := l
    have hrun := runAll_holding hs hdone [] [] results entry
    rw [List.append_nil, if_neg hqueue] at hrun
    exact hrun
  | @stopped done dropped input m m' vs halt hqueue hdone hhalt =>
    obtain ⟨machine, queue, results, entry⟩ := l
    cases hqueue
    refine (runAll_holding hs hdone (input :: dropped) [] results entry).trans ?_
    rw [runAll_cons_holding hs]
    dsimp only
    rw [hhalt]

/-- **A history of a session is the ledger's.** -/
theorem history_holding {s : Session} (hs : s.Ready) : ∀ {steps : List Step} {l : Ledger}
    {outcomes : List (Except Failure Unit × Ledger)}, l.Recounts s.limits steps outcomes →
      (s.holding l).history steps = outcomes.map fun (result, l') => (result, s.holding l') := by
  intro steps
  induction steps with
  | nil =>
    intro l outcomes h
    cases h
    rfl
  | cons step steps ih =>
    intro l outcomes h
    cases h with
    | cons hstep hrest =>
      rw [history, take_holding hs hstep, ih hrest]
      rfl

/-- The rules of the ledger say exactly what the session does. -/
theorem recounts_iff_history {s : Session} (hs : s.Ready) (l : Ledger) (steps : List Step)
    (outcomes : List (Except Failure Unit × Ledger)) :
    l.Recounts s.limits steps outcomes
      ↔ (s.holding l).history steps = outcomes.map fun (result, l') => (result, s.holding l') := by
  constructor
  · exact history_holding hs
  · intro h
    obtain ⟨outcomes', h'⟩ := Ledger.exists_recounts s.limits steps l
    have heq := h.symm.trans (history_holding hs h')
    rwa [(List.map_inj_right ?_).1 heq]
    rintro ⟨result, l⟩ ⟨result', l'⟩ ho
    obtain ⟨hresult, hl⟩ := Prod.mk.inj ho
    rw [hresult, holding_injective hl]

/-- A session on typed inputs starts with an opening ledger. -/
theorem start_eq_ok {reporter : Reporter} {path : String} {bytes : Option (List UInt8)}
    {limits : Limits} {s : Session} (h : start reporter path bytes true limits = .ok s) :
    s.Ready ∧ s.limits = limits ∧ ∃ l : Ledger, l.Opens path bytes ∧ s.holding l = s := by
  unfold start at h
  split at h
  · next hpath =>
    cases h
    refine ⟨⟨rfl, rfl⟩, rfl, _, .typed hpath, ?_⟩
    simp [holding, fresh, Reporter.addFile, putEntry_putEntry]
  · next hpath =>
    dsimp only at h
    split at h
    · cases h
    · next source htext =>
      -- the session that adds the file holds the empty ledger
      let s₀ : Session := { fresh reporter path true limits with
        reporter := (fresh reporter path true limits).reporter.addFile path (some source) }
      have hready : s₀.Ready := ⟨rfl, rfl⟩
      have hs₀ : s₀.holding ⟨.initial, [], [], none⟩ = s₀ := by
        simp [s₀, holding, fresh, Reporter.addFile, putEntry_putEntry]
      have hadd := add_holding hready ⟨.initial, [], [], none⟩ source 1
      rw [hs₀] at hadd
      split at h
      · cases h
      · next s' hs' =>
        cases h
        have hadded := hadd.symm.trans hs'
        rcases hprogram : freshProgram source 1 with d | program
        · rw [hprogram] at hadded
          cases hadded
        · rw [hprogram] at hadded
          cases hadded
          exact ⟨⟨rfl, rfl⟩, rfl, _, .file hpath htext hprogram, holding_holding _ _ _⟩

end Session

/-! ## §6. Histories. -/

open Session in
/-- **The history of a session on typed inputs is told by its ledger.**  Whatever is
asked of the session, in any order and after any failures: each step ends and leaves
behind what the ledger's rules say, the rest of the session stays as it was, and the
rules leave no other way to tell it.  In particular a refused input can be left out, and
no other step ends differently or has different effects. -/
theorem histories_follow_the_ledger {reporter : Reporter} {path : String}
    {bytes : Option (List UInt8)} {limits : Limits} {s : Session}
    (h : start reporter path bytes true limits = .ok s) :
    ∃ l : Ledger, l.Opens path bytes ∧ s.holding l = s
      ∧ (∀ (steps : List Step) (outcomes : List (Except Failure Unit × Ledger)),
          l.Recounts limits steps outcomes
            ↔ s.history steps = outcomes.map fun (result, l') => (result, s.holding l'))
      ∧ ∀ (before : List Step) (source : String) (line : Int) (d : Diagnostic)
          (after : List Step), freshProgram source line = .error d →
          (s.history (before ++ after)).map effects
            = ((s.history (before ++ .add source line :: after)).eraseIdx before.length).map
                effects := by
  obtain ⟨hs, rfl, l, hopens, hl⟩ := start_eq_ok h
  have hiff := recounts_iff_history hs l
  rw [hl] at hiff
  refine ⟨l, hopens, hl, hiff, ?_⟩
  intro before source line d after hd
  obtain ⟨outcomes, htold⟩ :=
    Ledger.exists_recounts s.limits (before ++ .add source line :: after) l
  obtain ⟨outcomes', htold', heq⟩ := htold.eraseIdx hd
  rw [(hiff _ _).1 htold, (hiff _ _).1 htold', List.eraseIdx_map]
  -- the effects are what the unnamed ledgers hold
  have heffects := congrArg
    (List.map fun (o : Except Failure Unit × Ledger) => effects (o.1, s.holding o.2)) heq
  rw [List.map_map, List.map_map] at heffects ⊢
  exact heffects

/-- A brace that closes nothing is refused, and then a name is queued that stands for
nothing. -/
theorem histories_follow_the_ledger_undefined :
    ∃ (s : Session) (d : Diagnostic) (program : List Stmt),
      Session.start (.new true Text.plain) "<in>" none true ⟨9, 1⟩ = .ok s
        ∧ s.history [.add "\x7d" 1, .add "a;" 2, .run]
          = [(.error (.diagnosed d), s.holding ⟨.initial, [], [], some ⟨"\x7d", 1⟩⟩),
             (.ok (), s.holding ⟨.initial, [⟨program, "a;", 2⟩], [], none⟩),
             (.error (.diagnosed (.ofRuntime ⟨.undefinedVariable "a", 2⟩)),
               s.holding ⟨.initial, [], [], some ⟨"a;", 2⟩⟩)]
        ∧ (s.history [.add "a;" 2, .run]).map Session.effects
          = ((s.history [.add "\x7d" 1, .add "a;" 2, .run]).eraseIdx 0).map Session.effects := by
  have hrefused : freshProgram "\x7d" 1
      = .error ⟨.parse, ["Line 1 at '\x7d': Expected expression"], some 1, false⟩ := by
    with_unfolding_all rfl
  have haccepted : freshProgram "a;" 2 = .ok [.expr (.var ⟨"a", 2, none⟩)] := by
    with_unfolding_all rfl
  have hstart : Session.start (.new true Text.plain) "<in>" none true ⟨9, 1⟩
      = .ok (.fresh (.new true Text.plain) "<in>" true ⟨9, 1⟩) := rfl
  obtain ⟨l, hopens, -, hiff, hleft⟩ := histories_follow_the_ledger hstart
  cases hopens with
  | file htyped => exact absurd rfl htyped
  | typed =>
    have htold := (hiff _ _).1 (.cons (.refused hrefused) (.cons (.queued haccepted)
      (.cons (.stopped (show _ = [] ++ _ :: [] from rfl) .nil rfl) .nil)))
    exact ⟨_, _, _, hstart, htold, hleft [] _ _ _ _ hrefused⟩

end LoxLang
