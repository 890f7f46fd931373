import MiniJava.Proofs.Python.Layout
import MiniJava.Proofs.Python.Unambiguous

/-!
# Statements in Python text

How Python reads a block of lines as statements: assignments and updates of names, calls of `print`
with one argument, `pass`, `if` with its clauses, `while`, and `for` over a range. A text that needs
a statement of another kind is not read. Each text is read in at most one way.
-/

namespace MiniJava.Python

inductive Code where
  | pass
  | assign (name : String) (value : Tree)
  | update (name operator : String) (value : Tree)
  | print (value : Tree)
  | ifElse (condition : Tree) (body other : List Code)
  | whileLoop (condition : Tree) (body : List Code)
  | forRange (counter : String) (start stop : Tree) (step : Option Tree) (body : List Code)

def readUpTo (rest tokens : List Token) : Option Tree :=
  (read 1 tokens).bind fun result => if result.2 = rest then some result.1 else none

def updates : List (String × String) :=
  [("+=", "+"), ("-=", "-"), ("*=", "*"), ("//=", "//"), ("%=", "%")]

def changed? : List Token → Option Code
  | .word name :: .symbol mark :: rest =>
    if isTarget name then
      if mark = "=" then (readUpTo [] rest).map (.assign name)
      else (updates.lookup mark).bind fun operator =>
        (readUpTo [] rest).map (.update name operator)
    else none
  | _ => none

def printed? : Tree → Option Code
  | .call (.name callee) [value] => if callee = "print" then some (.print value) else none
  | _ => none

def line? (text : List Char) : Option Code := do
  let tokens ← tokens? text
  if tokens = [.word "pass"] then some .pass
  else changed? tokens <|> (readUpTo [] tokens).bind printed?

inductive Header where
  | ifTest (condition : Tree)
  | elifTest (condition : Tree)
  | otherwise
  | whileTest (condition : Tree)
  | forRange (counter : String) (start stop : Tree) (step : Option Tree)

def overRange? (counter : String) : Tree → Option Header
  | .call (.name callee) [start, stop] =>
    if callee = "range" then some (.forRange counter start stop none) else none
  | .call (.name callee) [start, stop, step] =>
    if callee = "range" then some (.forRange counter start stop (some step)) else none
  | _ => none

def forHeader? : List Token → Option Header
  | .word counter :: .word preposition :: rest =>
    if isTarget counter && preposition = "in" then
      (readUpTo [.symbol ":"] rest).bind (overRange? counter)
    else none
  | _ => none

def conditionals : List (String × (Tree → Header)) :=
  [("if", .ifTest), ("elif", .elifTest), ("while", .whileTest)]

def header? (text : List Char) : Option Header := do
  match ← tokens? text with
  | .word word :: rest =>
    match conditionals.lookup word with
    | some header => (readUpTo [.symbol ":"] rest).map header
    | none =>
      if word = "for" then forHeader? rest
      else if word = "else" && rest = [.symbol ":"] then some .otherwise
      else none
  | _ => none

/-- The branch for an `if` in front, which is empty if there is none, and the statements behind. -/
structure Parts where
  branch : List Code
  rest : List Code

namespace Parts

def alone (parts : Parts) : Option (List Code) := if parts.branch.isEmpty then some parts.rest else none

/-- A statement that has no branches, in front of others. -/
def behind (parts : Parts) (statement : Code) : Option Parts :=
  parts.alone.map fun rest => ⟨[], statement :: rest⟩

def behindClause (parts : Parts) (suite : List Code) : Header → Option Parts
  | .ifTest condition => some ⟨[], .ifElse condition suite parts.branch :: parts.rest⟩
  | .elifTest condition => some ⟨[.ifElse condition suite parts.branch], parts.rest⟩
  | .otherwise => parts.alone.map fun rest => ⟨suite, rest⟩
  | .whileTest condition => parts.behind (.whileLoop condition suite)
  | .forRange counter start stop step => parts.behind (.forRange counter start stop step suite)

end Parts

def partsOf : List Node → Option Parts
  | [] => some ⟨[], []⟩
  | .line text :: rest => do (← partsOf rest).behind (← line? text)
  | .clause header body :: rest => do
    let suite ← (← partsOf body).alone
    (← partsOf rest).behindClause suite (← header? header)

def codeOf (nodes : List Node) : Option (List Code) := (partsOf nodes).bind Parts.alone

/-- Python reads the text as these statements. -/
def ReadsAs (text : String) (code : List Code) : Prop :=
  ∃ nodes, Block 0 (rowsOf text) nodes ∧ codeOf nodes = some code

namespace Block

variable {n : Nat} {row : Row} {rows : List Row} {nodes others : List Node}

/-- What a block with a first row is made of. -/
theorem exists_of_cons (h : Block n (row :: rows) nodes) :
    (∃ more, row.opens = false ∧ Block n rows more ∧ nodes = .line row.text :: more) ∨
      ∃ suite rest body more, row.opens = true ∧ rows = suite ++ rest ∧ Block (n + 4) suite body ∧
        Block n rest more ∧ nodes = .clause row.text body :: more := by
  generalize hall : row :: rows = all at h
  cases h with
  | nil => cases hall
  | line hopens hrest =>
      cases hall
      exact .inl ⟨_, hopens, hrest, rfl⟩
  | clause hopens hsuite _ hrest =>
      cases hall
      exact .inr ⟨_, _, _, _, hopens, rfl, hsuite, hrest, rfl⟩

/-- A suite ends where the indentation does. -/
theorem takeWhile_suite {suite rest : List Row} {body : List Node} (hsuite : Block (n + 4) suite body)
    (hrest : Block n rest nodes) :
    (suite ++ rest).takeWhile (fun row => n + 4 ≤ row.indent) = suite := by
  have hdeep : ∀ row ∈ suite, decide (n + 4 ≤ row.indent) = true :=
    fun row hrow => decide_eq_true (hsuite.le_indent row hrow)
  have hstop : rest.takeWhile (fun row => n + 4 ≤ row.indent) = [] := by
    cases rest with
    | nil => rfl
    | cons row rest =>
        have hindent := hrest.head_indent row rfl
        exact List.takeWhile_cons_of_neg (by simp [hindent])
  rw [List.takeWhile_append_of_pos hdeep, hstop, List.append_nil]

theorem unique (h : Block n rows nodes) (hother : Block n rows others) : nodes = others := by
  induction h generalizing others with
  | nil =>
      cases hother
      rfl
  | line hopens _ ih =>
      rcases hother.exists_of_cons with ⟨more, -, hmore, rfl⟩ | ⟨_, _, _, _, hopens', _⟩
      · rw [ih hmore]
      · rw [hopens] at hopens'
        cases hopens'
  | @clause n header suite rest body nodes hopens hsuite _ hrest ihsuite ih =>
      rcases hother.exists_of_cons with ⟨_, hopens', _⟩ |
        ⟨suite', rest', body', more, -, hrows, hsuite', hrest', rfl⟩
      · rw [hopens] at hopens'
        cases hopens'
      · have htake := takeWhile_suite hsuite hrest
        rw [hrows, takeWhile_suite hsuite' hrest'] at htake
        subst htake
        obtain rfl := List.append_cancel_left hrows
        rw [ihsuite hsuite', ih hrest']

end Block

theorem ReadsAs.unique {text : String} {code other : List Code} (h : ReadsAs text code)
    (hother : ReadsAs text other) : code = other := by
  obtain ⟨nodes, hblock, hcode⟩ := h
  obtain ⟨nodes', hblock', hcode'⟩ := hother
  rw [hblock.unique hblock', hcode'] at hcode
  exact (Option.some.inj hcode).symm

end MiniJava.Python
