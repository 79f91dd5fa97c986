import SwitchLint.Proofs.Discovery

/-!
# Sessions

A session is a list of requests to one linter: to lint a text, a file or a stream, or to register a rule. Linting may
fail at any point: a file cannot be read, a text cannot be parsed, a rule fails in the middle of a run. One request
changes two things of a linter only, its registry by registering and its memory by entering a run
(`Linter.serve_linter`), and no answer depends on the memory (`Linter.serve_answer`). So in a session each answer is
the one of a fresh linter with the rules registered so far, and in the end the linter remembers its last run
(`Linter.session_eq`).
-/

namespace SwitchLint

/-- A request to a linter. Runs may come with their own rules. -/
inductive Request where
  | text (source path : String) (rules : Option (List Rule))
  | file (data : Except Failure (List UInt8)) (path : String) (rules : Option (List Rule))
  | stream (s : TokenStream) (path : String) (rules : Option (List Rule))
  | register (rule : Rule)

/-- A run that a request enters: what it runs over, and with which rules. -/
structure Entered where
  file : String
  stream : TokenStream
  rules : List Rule

namespace Entered

/-- The run over a stream, with the registered rules if it has none of its own. -/
def ofStream (registered : List Rule) (s : TokenStream) (file : String) (rules : Option (List Rule)) : Entered :=
  ⟨Path.normalize file, s, rules.getD registered⟩

/-- The run over a text, if it can be parsed. -/
def ofText? (grammar : Grammar) (tabWidth : Int) (registered : List Rule) (source file : String)
    (rules : Option (List Rule)) : Option Entered :=
  (Source.parse grammar tabWidth source).result.toOption.map fun p => ofStream registered p.stream file rules

/-- The issues of the rules in turn, up to the first rule that fails. -/
def found (ignored : List String) (e : Entered) : List Issue :=
  (e.rules.takeWhile (Run.succeeds e.file e.stream ignored)).flatMap (Run.discovered e.file e.stream ignored)

end Entered

namespace Request

/-- The rules that a list of requests registers. -/
def registered : List Request → List Rule
  | [] => []
  | .register rule :: requests => rule :: registered requests
  | _ :: requests => registered requests

/-- The run that a request enters with the given rules registered: none if reading or parsing fails. -/
def entered? (grammar : Grammar) (tabWidth : Int) (rules : List Rule) : Request → Option Entered
  | .text source path own => Entered.ofText? grammar tabWidth rules source path own
  | .file data path own =>
    (Source.textOf data).toOption.bind fun source =>
      Entered.ofText? grammar tabWidth rules source (Path.normalize path) own
  | .stream s path own => some (Entered.ofStream rules s path own)
  | .register _ => none

/-- The runs that a list of requests enters, in order. -/
def enteredAll (grammar : Grammar) (tabWidth : Int) (rules : List Rule) : List Request → List Entered
  | [] => []
  | request :: requests =>
    (request.entered? grammar tabWidth rules).toList ++
      enteredAll grammar tabWidth (rules ++ registered [request]) requests

theorem registered_cons (request : Request) (requests : List Request) :
    registered (request :: requests) = registered [request] ++ registered requests := by
  cases request <;> rfl

end Request

namespace Linter

/-- The answer of a linter to a request, which is none for a registration, and the linter after it. -/
def serve (grammar : Grammar) (l : Linter) : Request → Linter × Option (Traced (List Issue))
  | .text source path rules => (l.lintText grammar source path rules).map id some
  | .file data path rules => (l.lintBytes grammar data path rules).map id some
  | .stream s path rules => (l.run path s rules).map id some
  | .register rule => ({ l with registry := l.registry.register rule }, none)

/-- The answers of a linter to a list of requests, and the linter after them. -/
def session (grammar : Grammar) (l : Linter) : List Request → Linter × List (Option (Traced (List Issue)))
  | [] => (l, [])
  | request :: requests =>
    let (l, answer) := l.serve grammar request
    let (l, answers) := l.session grammar requests
    (l, answer :: answers)

/-- A linter like the given one with more rules registered, and with no run behind it. -/
def fresh (l : Linter) (more : List Rule) : Linter :=
  { l with registry := ⟨l.registry.rules ++ more⟩, found := [] }

variable (grammar : Grammar) (l : Linter)

/-! ### One request -/

theorem run_linter (file : String) (s : TokenStream) (rules : Option (List Rule)) :
    (l.run file s rules).1 =
      { l with found := (Entered.ofStream l.registry.rules s file rules).found l.ignored } := by
  unfold run
  dsimp only
  rw [Run.ofRules_found]
  rfl

theorem lintText_linter (source file : String) (rules : Option (List Rule)) :
    (l.lintText grammar source file rules).1 = { l with
      found := ((Entered.ofText? grammar l.tabWidth l.registry.rules source file rules).map
        (Entered.found l.ignored)).getD l.found } := by
  unfold lintText Entered.ofText?
  dsimp only
  cases (Source.parse grammar l.tabWidth source).result with
  | error e => rfl
  | ok p => exact run_linter l file p.stream rules

/-- What a request does to a linter: it adds to the registry what it registers, and the linter remembers the run that
it enters, if there is one. -/
theorem serve_linter (request : Request) : (l.serve grammar request).1 = { l with
    registry := ⟨l.registry.rules ++ Request.registered [request]⟩
    found := ((request.entered? grammar l.tabWidth l.registry.rules).map (Entered.found l.ignored)).getD l.found } := by
  have hregistry : Registry.mk (l.registry.rules ++ []) = l.registry := by rw [List.append_nil]
  cases request with
  | text source path rules =>
    simp only [serve, Prod.map_fst, id, lintText_linter, Request.registered, hregistry, Request.entered?]
  | file data path rules =>
    simp only [serve, Prod.map_fst, id, lintBytes, Request.registered, hregistry, Request.entered?]
    cases Source.textOf data with
    | error e => rfl
    | ok source => exact lintText_linter grammar l source (Path.normalize path) rules
  | stream s path rules =>
    simp only [serve, Prod.map_fst, id, run_linter, Request.registered, hregistry, Request.entered?, Option.map_some,
      Option.getD_some]
  | register rule => rfl

theorem lintText_answer (source file : String) (rules : Option (List Rule)) :
    (l.lintText grammar source file rules).2 = ((l.fresh []).lintText grammar source file rules).2 := by
  unfold lintText run fresh
  simp only [List.append_nil]
  cases (Source.parse grammar l.tabWidth source).result <;> rfl

/-- What a linter remembers has no influence on its answer. -/
theorem serve_answer (request : Request) :
    (l.serve grammar request).2 = ((l.fresh []).serve grammar request).2 := by
  cases request with
  | text source path rules => exact congrArg some (lintText_answer grammar l source path rules)
  | file data path rules =>
    simp only [serve, Prod.map_snd, lintBytes]
    cases Source.textOf data with
    | error e => rfl
    | ok source => simp only [lintText_answer grammar l]
  | stream s path rules =>
    unfold serve run fresh
    simp only [List.append_nil, Prod.map_snd]
  | register rule => rfl

/-! ### Many requests -/

theorem fresh_serve (request : Request) (more : List Rule) :
    (l.serve grammar request).1.fresh more = l.fresh (Request.registered [request] ++ more) := by
  rw [serve_linter]
  unfold fresh
  simp only [List.append_assoc]

/-- In a session each answer is the one of a fresh linter with the rules registered until then. In the end the linter
remembers the last run that was entered: what its rules found in turn, up to the first rule that failed. Without such
a run it remembers what it did before. -/
theorem session_eq (requests : List Request) :
    (l.session grammar requests).2 = requests.mapIdx (fun i request =>
      ((l.fresh (Request.registered (requests.take i))).serve grammar request).2) ∧
    (l.session grammar requests).1 = { l with
      registry := ⟨l.registry.rules ++ Request.registered requests⟩
      found := ((Request.enteredAll grammar l.tabWidth l.registry.rules requests).getLast?.map
        (Entered.found l.ignored)).getD l.found } := by
  induction requests generalizing l with
  | nil => simp [session, Request.registered, Request.enteredAll]
  | cons request requests ih =>
    obtain ⟨hanswers, hlinter⟩ := ih (l.serve grammar request).1
    constructor
    · simp only [session, hanswers, fresh_serve, List.mapIdx_cons, List.take_succ_cons, List.take_zero,
        ← Request.registered_cons, Request.registered]
      rw [serve_answer]
    · simp only [session, hlinter]
      simp only [serve_linter, Request.registered_cons request requests, List.append_assoc, Request.enteredAll,
        List.getLast?_append]
      -- the last run is one of the later ones, or else that of this request, or else one before it
      cases (Request.enteredAll grammar l.tabWidth (l.registry.rules ++ Request.registered [request])
        requests).getLast? <;> cases request.entered? grammar l.tabWidth l.registry.rules <;> rfl

-- The second rule reports behind the end of the stream, and the last file is missing.
example :
    let l : Linter := { registry := ⟨[.fixed "A" "" .error [.switch] [⟨"one", "x", 0, []⟩]]⟩ }
    let s : TokenStream := ⟨#[⟨.switch, "switch", 1, 1, none, none, none⟩]⟩
    (l.session grammar [.register (.fixed "B" "" .error [.switch] [⟨"two", "y", 1, []⟩]), .stream s "a.php" none,
      .file (.error (.file ⟨.missing, "b.php"⟩)) "b.php" none]).1.found.map (·.message) = ["one"] :=
  rfl

end Linter

end SwitchLint
