import Mathlib.Tactic.SplitIfs
import Scriptlet.Syntax.Parser

/-! # Readers as compositions

Every reader of the grammar is put together from few parts: it ends, takes a token, or decides by
the next token how to go on, one part after the other. A property that is passed on by these
compositions therefore holds for all readers. A reader that recurses is a composition of readers
with less fuel. -/

namespace Scriptlet.Parser

/-- A reader, given the offset of the end and fuel. -/
abbrev Reader (α : Type) : Type :=
  (stop fuel : Nat) → List Token → Except ParseError (α × List Token)

namespace Reader

variable {α β : Type}

/-- Takes nothing. -/
def done (a : α) : Reader α :=
  fun _ _ ts => .ok (a, ts)

/-- Fails at once. -/
def broken (e : ParseError) : Reader α :=
  fun _ _ _ => .error e

/-- One reader after the other. -/
def bind (R : Reader α) (f : α → Reader β) : Reader β :=
  fun stop fuel ts => R stop fuel ts >>= fun r => f r.1 stop fuel r.2

/-- Takes a token and goes on as it says, if it says so. -/
def select (w : Wanted) (f : Token → Option (Reader α)) : Reader α
  | stop, _, [] => fail stop w []
  | stop, fuel, t :: ts =>
    match f t with
    | some R => R stop fuel ts
    | none => fail stop w (t :: ts)

/-- Takes a word first. -/
def expect (w : String) (R : Reader α) : Reader α :=
  fun stop fuel ts => word stop w ts >>= fun ts => R stop fuel ts

/-- Takes one of some words and goes on as it says, or goes on without one. -/
def choose (ws : List String) (f : String → Reader α) (R : Reader α) : Reader α :=
  fun stop fuel ts =>
    match take? ws ts with
    | some (w, ts) => f w stop fuel ts
    | none => R stop fuel ts

/-- Takes a word and goes on with one reader, or goes on with another one. -/
def next (w : String) (R R' : Reader α) : Reader α :=
  fun stop fuel ts => if at? w ts then R stop fuel (ts.drop 1) else R' stop fuel ts

/-- Goes on with one of two readers. -/
def pick (p : List Token → Bool) (R R' : Reader α) : Reader α :=
  fun stop fuel ts => if p ts then R stop fuel ts else R' stop fuel ts

/-- A reader that is given fuel for all tokens. -/
def refuel (R : Reader α) : Reader α :=
  fun stop _ ts => R stop (fuelFor ts) ts

/-- Demands the end of the tokens. -/
def finish (a : α) : Reader α
  | _, _, [] => .ok (a, [])
  | stop, _, t :: ts => fail stop .declaration (t :: ts)

end Reader

open Reader

variable (stop fuel : Nat) (ts : List Token)

/-! ### Leaves -/

theorem expect_eq {α : Type} (w : String) (R : Reader α) : expect w R stop fuel ts =
    select (.word w) (fun t => if t.text = w then some R else none) stop fuel ts := by
  cases ts with
  | nil => rfl
  | cons t ts =>
    rw [expect, word, select]
    split_ifs
    · rfl
    · rfl

theorem next_eq {α : Type} (w : String) (R R' : Reader α) :
    next w R R' stop fuel ts = choose [w] (fun _ => R) R' stop fuel ts := by
  cases ts with
  | nil => rfl
  | cons t ts =>
    rw [next, choose, at?, take?]
    by_cases h : t.text = w <;> simp [h]

/-- The reader of an identifier. -/
theorem identifier_eq (w : Wanted) : identifier stop w ts =
    select w (fun t => if t.kind = .identifier then some (done (.text t.text)) else none)
      stop fuel ts := by
  cases ts with
  | nil => rfl
  | cons t ts =>
    rw [identifier, select]
    split_ifs
    · rfl
    · rfl

theorem typeAnnotation_eq (w : Wanted) : typeAnnotation stop w ts =
    choose [":"] (fun _ => bind (fun stop _ => identifier stop w) fun n => done (some n))
      (done none) stop fuel ts := rfl

/-! ### Expressions -/

theorem tier_succ (l : Tier) : tier stop (fuel + 1) l ts =
    bind (fun stop fuel => operand stop fuel l) (fun e stop fuel => chain stop fuel l e)
      stop fuel ts := by
  rw [tier]
  rfl

theorem operand_succ {l next : Tier} (h : l.tighter? = some next) :
    operand stop (fuel + 1) l ts = tier stop fuel next ts := by
  rw [operand, h]

theorem operand_succ_none {l : Tier} (h : l.tighter? = none) :
    operand stop (fuel + 1) l ts = primary stop fuel ts := by
  rw [operand, h]

theorem chain_succ (l : Tier) (e : Expr) : chain stop (fuel + 1) l e ts =
    choose l.operators
      (fun op => bind (fun stop fuel => operand stop fuel l) fun right stop fuel =>
        chain stop fuel l (.binary op e right none))
      (done e) stop fuel ts := by
  rw [chain]
  rfl

/-- How an expression goes on after a token that is read alone. -/
def primaryRest (t : Token) : Option (Reader Expr) :=
  match literal? t with
  | some (.ok e) => some (done e)
  | some (.error e) => some (broken e)
  | none =>
    if t.text = "(" then
      some (bind (fun stop fuel => tier stop fuel .logical) fun e =>
        expect ")" (done (.group e none)))
    else if t.kind = .identifier then some fun stop fuel => reference stop fuel (.text t.text)
    else none

theorem primary_succ : primary stop (fuel + 1) ts =
    select .expression primaryRest stop fuel ts := by
  cases ts with
  | nil =>
    rw [primary]
    · rfl
    · exact Nat.succ_ne_zero _
  | cons t ts =>
    rw [primary, select, primaryRest]
    cases hliteral : literal? t with
    | some r => cases r <;> rfl
    | none =>
      simp only
      split_ifs <;> rfl

theorem reference_succ (x : Name) : reference stop (fuel + 1) x ts =
    next "("
      (next ")" (done (.call x [] none none))
        (bind expressions fun args => expect ")" (done (.call x args none none))))
      (next "["
        (bind (fun stop fuel => tier stop fuel .logical) fun o =>
          expect "]" (done (.index x o none none)))
        (done (.name x none none))) stop fuel ts := by
  rw [reference]
  rfl

theorem expressions_succ : expressions stop (fuel + 1) ts =
    bind (fun stop fuel => tier stop fuel .logical) (fun e =>
      next "," (bind expressions fun es => done (e :: es)) (done [e])) stop fuel ts := by
  rw [expressions]
  rfl

theorem expression_eq : expression stop ts =
    refuel (fun stop fuel => tier stop fuel .logical) stop fuel ts := rfl

theorem listLiteral_eq : listLiteral stop ts =
    expect "[" (bind (refuel expressions) fun vs => expect "]" (done (.list vs none)))
      stop fuel ts := rfl

theorem initializer_eq : initializer stop ts =
    next "=" (bind (fun stop _ => expression stop) fun e => done (some e)) (done none)
      stop fuel ts := rfl

/-! ### Statements -/

theorem localDeclaration_eq : localDeclaration stop ts =
    bind (fun stop _ => identifier stop .variableName) (fun n =>
      bind (fun stop _ => typeAnnotation stop .typeName) fun t =>
        bind (fun stop _ => initializer stop) fun v =>
          expect ";" (done (.declare n t v none))) stop fuel ts := rfl

theorem simpleStatement_eq : simpleStatement stop ts =
    bind (fun stop _ => expression stop) (fun e =>
      next "="
        (bind (fun stop _ => expression stop) fun v => expect ";" (done (.assign e v)))
        (expect ";" (done (.expr e)))) stop fuel ts := rfl

theorem block_succ : block stop (fuel + 1) ts =
    pick endsBlock (done [])
      (bind statement fun x => bind block fun xs => done (x :: xs)) stop fuel ts := by
  rw [block]
  rfl

/-- The end of a conditional, after its first block. -/
def branchRest (c : Expr) (t : List Stmt) : Reader Stmt :=
  next "ELSE"
    (bind block fun e => expect "END" (done (.branch c t e)))
    (expect "END" (done (.branch c t [])))

theorem statement_succ : statement stop (fuel + 1) ts =
    next "LET" (fun stop _ => localDeclaration stop)
      (next "IF"
        (bind (fun stop _ => expression stop) fun c => expect "DO" <| bind block (branchRest c))
      (next "SWITCH"
        (bind (fun stop _ => expression stop) fun c => bind cases fun cs =>
          expect "END" (done (.switch c cs)))
      (next "WHILE"
        (bind (fun stop _ => expression stop) fun c => expect "DO" <| bind block fun b =>
          expect "END" (done (.loop c b)))
      (next "RETURN"
        (bind (fun stop _ => expression stop) fun e => expect ";" (done (.ret e)))
        (fun stop _ => simpleStatement stop))))) stop fuel ts := by
  rw [statement]
  rfl

theorem cases_succ : cases stop (fuel + 1) ts =
    next "CASE"
      (bind (fun stop _ => expression stop) fun v => expect ":" <| bind block fun b =>
        bind cases fun cs => done (.equals v b :: cs))
      (expect "DEFAULT" <| bind block fun b => done [.otherwise b]) stop fuel ts := by
  rw [cases]
  rfl

/-! ### Declarations -/

/-- The end of the declaration of a global variable, after its type. -/
def globalRest (keyword : String) (n : Name) (t : Option Name) : Reader GlobalDecl :=
  let declared (v : Option Expr) (bracketed : Bool) : Reader GlobalDecl :=
    expect ";" (done ⟨n, keyword ≠ "VAL", t, v, keyword = "LIST" || bracketed, none⟩)
  next "="
    (pick (at? "[")
      (bind (fun stop _ => listLiteral stop) fun e => declared (some e) true)
      (bind (fun stop _ => expression stop) fun e => declared (some e) false))
    (declared none false)

theorem global_eq (keyword : String) : global stop keyword ts =
    bind (fun stop _ => identifier stop .globalName) (fun n =>
      bind (fun stop _ => typeAnnotation stop .typeName) fun t => globalRest keyword n t)
      stop fuel ts := by
  rw [global, Reader.bind]
  refine congrArg (identifier stop .globalName ts >>= ·) (funext fun n => ?_)
  rw [Reader.bind]
  refine congrArg ( typeAnnotation stop .typeName n.2 >>= ·) (funext fun t => ?_)
  obtain ⟨t, ts⟩ := t
  cases hequals : at? "=" ts with
  | false =>
    simp only [globalRest, next, initializer, hequals, Bool.false_and, Bool.false_eq_true, if_false]
    rfl
  | true =>
    simp only [globalRest, next, pick, initializer, hequals, Bool.true_and, if_true]
    split_ifs with hbracket
    · rw [hbracket]
      rfl
    · rw [Bool.eq_false_iff.mpr hbracket, Reader.bind]
      cases expression stop (ts.drop 1) <;> rfl

theorem parameter_eq : parameter stop ts =
    bind (fun stop _ => identifier stop .parameterName) (fun n =>
      bind (fun stop _ => typeAnnotation stop .typeName) fun t => done (.typed n t))
      stop fuel ts := rfl

theorem parameters_succ : parameters stop (fuel + 1) ts =
    bind (fun stop _ => parameter stop) (fun p =>
      next "," (bind parameters fun ps => done (p :: ps)) (done [p])) stop fuel ts := by
  rw [parameters]
  rfl

/-- The end of the declaration of a function, after its parameters. -/
def functionRest (n : Name) (ps : List Param) : Reader FuncDecl :=
  expect ")" <| bind (fun stop _ => typeAnnotation stop .returnTypeName) fun r => expect "DO" <|
    bind (refuel block) fun b => expect "END" (done ⟨n, ps, r, b, none⟩)

theorem function_eq : function stop ts =
    bind (fun stop _ => identifier stop .functionName) (fun n => expect "(" <|
      pick (at? ")") (functionRest n []) (bind (refuel parameters) (functionRest n)))
      stop fuel ts := rfl

theorem globals_succ : globals stop (fuel + 1) ts =
    choose ["LIST", "VAR", "VAL"]
      (fun keyword => bind (fun stop _ => global stop keyword) fun g => bind globals fun gs =>
        done (.decl g :: gs))
      (done []) stop fuel ts := by
  rw [globals]
  rfl

theorem functions_succ : functions stop (fuel + 1) ts =
    next "FUN"
      (bind (fun stop _ => function stop) fun f => bind functions fun fs => done (.decl f :: fs))
      (done []) stop fuel ts := by
  rw [functions]
  rfl

theorem program_eq : program stop ts =
    bind (refuel globals) (fun gs => bind (refuel functions) fun fs => finish ⟨gs, fs⟩)
      stop fuel ts := by
  rw [program, Reader.bind, refuel]
  refine congrArg (globals stop (fuelFor ts) ts >>= ·) (funext fun gs => ?_)
  rw [Reader.bind, refuel]
  refine congrArg (functions stop (fuelFor gs.2) gs.2 >>= ·) (funext fun fs => ?_)
  obtain ⟨fs, rest⟩ := fs
  cases rest <;> rfl

end Scriptlet.Parser
