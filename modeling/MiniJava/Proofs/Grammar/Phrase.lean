import Mathlib.Data.List.Forall2
import MiniJava.Grammar.Program
import MiniJava.Proofs.Grammar.Derivation
import MiniJava.Proofs.Token.Regular

/-!
# The grammar of programs

What a run of tokens spells, from types and declarations over statements to classes and whole
programs. Keywords and marks are told by their lexemes alone; names and types are regular tokens,
and an expression is a derivation of regular tokens. The sides of a rule say which trees can be
written at all: an `else` does not stand behind an `if` that could take it, a `try` has a handler or
a cleanup, and a declaration begins like one.
-/

namespace MiniJava

/-- Whether an `else` behind the statement would become part of it. -/
def Stmt.endsOpen : Stmt → Bool
  | .ifElse _ _ none => true
  | .ifElse _ _ (some elseBranch) => elseBranch.endsOpen
  | .whileLoop _ body | .forLoop _ _ _ body => body.endsOpen
  | _ => false

namespace Grammar

structure IsName (token : Token) : Prop where
  kind : token.kind = .identifier
  regular : token.IsRegular

structure SpellsExpr (e : Expr) (tokens : List Token) : Prop where
  derives : Derives .assignment tokens e
  regular : ∀ token ∈ tokens, token.IsRegular

inductive SpellsOption : Option Expr → List Token → Prop
  | none : SpellsOption none []
  | some {e : Expr} {tokens : List Token} : SpellsExpr e tokens → SpellsOption (some e) tokens

inductive SpellsGroup (e : Expr) : List Token → Prop
  | mk {opening closing : Token} {tokens : List Token} : opening.lexeme = "(" →
      SpellsExpr e tokens → closing.lexeme = ")" →
      SpellsGroup e (opening :: (tokens ++ [closing]))

inductive Commas {α : Type} (spells : α → List Token → Prop) : List α → List Token → Prop
  | one {a : α} {tokens : List Token} : spells a tokens → Commas spells [a] tokens
  | more {a : α} {list : List α} {comma : Token} {tokens rest : List Token} : spells a tokens →
      comma.lexeme = "," → Commas spells list rest →
      Commas spells (a :: list) (tokens ++ comma :: rest)

inductive Listed {α : Type} (spells : α → List Token → Prop) : List α → List Token → Prop
  | none : Listed spells [] []
  | some {list : List α} {tokens : List Token} : Commas spells list tokens →
      Listed spells list tokens

def SpellsModifiers (modifiers : List Modifier) (tokens : List Token) : Prop :=
  List.Forall₂ (fun modifier token => token.lexeme = modifier.word) modifiers tokens

inductive SpellsDimensions : Nat → List Token → Prop
  | none : SpellsDimensions 0 []
  | more {n : Nat} {left right : Token} {tokens : List Token} : left.lexeme = "[" →
      right.lexeme = "]" → SpellsDimensions n tokens →
      SpellsDimensions (n + 1) (left :: right :: tokens)

inductive SpellsType : TypeName → List Token → Prop
  | mk {head : Token} {n : Nat} {tokens : List Token} : namesType head = true →
      head.IsRegular → SpellsDimensions n tokens → SpellsType ⟨head.lexeme, n⟩ (head :: tokens)

inductive SpellsInitial : Option Expr → List Token → Prop
  | none : SpellsInitial none []
  | some {sign : Token} {e : Expr} {tokens : List Token} : sign.lexeme = "=" →
      SpellsExpr e tokens → SpellsInitial (some e) (sign :: tokens)

inductive SpellsVariable : VarDecl → List Token → Prop
  | mk {modifiers : List Modifier} {type : TypeName} {name : Token} {init : Option Expr}
      {words head tail : List Token} : SpellsModifiers modifiers words → SpellsType type head →
      IsName name → SpellsInitial init tail →
      SpellsVariable ⟨modifiers, type, name.lexeme, init, name.position⟩
        (words ++ (head ++ name :: tail))

inductive SpellsParam : Param → List Token → Prop
  | mk {type : TypeName} {name : Token} {tokens : List Token} : SpellsType type tokens →
      IsName name → SpellsParam ⟨type, name.lexeme, name.position⟩ (tokens ++ [name])

/-- A declaration or an expression, without its semicolon. A declaration that has no modifiers is
not of type `void`. -/
inductive SpellsSimple : Stmt → List Token → Prop
  | declare {decl : VarDecl} {tokens : List Token} : SpellsVariable decl tokens →
      (decl.modifiers = [] → decl.type.name ≠ "void") → SpellsSimple (.declare decl) tokens
  | expression {e : Expr} {tokens : List Token} : SpellsExpr e tokens →
      SpellsSimple (.expression e) tokens

def fitsHeader : Stmt → Prop
  | .declare decl => ∀ modifier ∈ decl.modifiers.head?, modifier = .final
  | _ => True

inductive SpellsStart : Option Stmt → List Token → Prop
  | none : SpellsStart none []
  | some {s : Stmt} {tokens : List Token} : SpellsSimple s tokens → fitsHeader s →
      SpellsStart (some s) tokens

inductive SpellsHeader : ForHeader → List Token → Prop
  | mk {opening first second closing : Token} {header : ForHeader}
      {start condition update : List Token} : opening.lexeme = "(" →
      SpellsStart header.init start → first.lexeme = ";" →
      SpellsOption header.condition condition → second.lexeme = ";" →
      Listed SpellsExpr header.update update → closing.lexeme = ")" →
      SpellsHeader header
        (opening :: (start ++ first :: (condition ++ second :: (update ++ [closing]))))

inductive Phrase where
  | statement (s : Stmt)
  | statements (body : List Stmt)
  | block (body : List Stmt)
  | clauses (list : List (CatchClause Stmt))
  | sections (body : SwitchBody)

inductive Spells : Phrase → List Token → Prop
  | simple {s : Stmt} {semicolon : Token} {tokens : List Token} : SpellsSimple s tokens →
      semicolon.lexeme = ";" → Spells (.statement s) (tokens ++ [semicolon])
  | print {call opening closing semicolon : Token} {args : List Expr} {tokens : List Token} :
      call.kind = .printCall → call.IsRegular → opening.lexeme = "(" →
      Listed SpellsExpr args tokens → closing.lexeme = ")" → semicolon.lexeme = ";" →
      Spells (.statement (.print (printKind call.lexeme) args call.position))
        (call :: opening :: (tokens ++ closing :: [semicolon]))
  | empty {semicolon : Token} : semicolon.lexeme = ";" → Spells (.statement .empty) [semicolon]
  | block {body : List Stmt} {tokens : List Token} : Spells (.block body) tokens →
      Spells (.statement (.block body)) tokens
  | ifThen {word : Token} {e : Expr} {thenBranch : Stmt} {head tokens : List Token} :
      word.lexeme = "if" → SpellsGroup e head → Spells (.statement thenBranch) tokens →
      Spells (.statement (.ifElse e thenBranch none)) (word :: (head ++ tokens))
  | ifElse {word other : Token} {e : Expr} {thenBranch elseBranch : Stmt}
      {head tokens more : List Token} : word.lexeme = "if" → SpellsGroup e head →
      Spells (.statement thenBranch) tokens → thenBranch.endsOpen = false →
      other.lexeme = "else" → Spells (.statement elseBranch) more →
      Spells (.statement (.ifElse e thenBranch (some elseBranch)))
        (word :: (head ++ (tokens ++ other :: more)))
  | whileLoop {word : Token} {e : Expr} {body : Stmt} {head tokens : List Token} :
      word.lexeme = "while" → SpellsGroup e head → Spells (.statement body) tokens →
      Spells (.statement (.whileLoop e body)) (word :: (head ++ tokens))
  | doWhile {word again semicolon : Token} {e : Expr} {body : Stmt} {tokens tail : List Token} :
      word.lexeme = "do" → Spells (.statement body) tokens → again.lexeme = "while" →
      SpellsGroup e tail → semicolon.lexeme = ";" →
      Spells (.statement (.doWhile body e)) (word :: (tokens ++ again :: (tail ++ [semicolon])))
  | forLoop {word : Token} {header : ForHeader} {body : Stmt} {head tokens : List Token} :
      word.lexeme = "for" → SpellsHeader header head → Spells (.statement body) tokens →
      Spells (.statement (.forLoop header.init header.condition header.update body))
        (word :: (head ++ tokens))
  | switch {word opening : Token} {e : Expr} {body : SwitchBody} {head tokens : List Token} :
      word.lexeme = "switch" → SpellsGroup e head → opening.lexeme = "\x7b" →
      Spells (.sections body) tokens →
      Spells (.statement (.switch e body.cases body.default)) (word :: (head ++ opening :: tokens))
  | tryCatch {word : Token} {body : List Stmt} {list : List (CatchClause Stmt)}
      {tokens more : List Token} : word.lexeme = "try" → Spells (.block body) tokens →
      Spells (.clauses list) more → list ≠ [] →
      Spells (.statement (.tryCatch body list none)) (word :: (tokens ++ more))
  | tryFinally {word last : Token} {body cleanup : List Stmt} {list : List (CatchClause Stmt)}
      {tokens more tail : List Token} : word.lexeme = "try" → Spells (.block body) tokens →
      Spells (.clauses list) more → last.lexeme = "finally" → Spells (.block cleanup) tail →
      Spells (.statement (.tryCatch body list (some cleanup)))
        (word :: (tokens ++ (more ++ last :: tail)))
  | returns {word semicolon : Token} {value : Option Expr} {tokens : List Token} :
      word.lexeme = "return" → SpellsOption value tokens → semicolon.lexeme = ";" →
      Spells (.statement (.returns value word.position)) (word :: (tokens ++ [semicolon]))
  | breaks {word semicolon : Token} : word.lexeme = "break" → semicolon.lexeme = ";" →
      Spells (.statement .breaks) [word, semicolon]
  | continues {word semicolon : Token} : word.lexeme = "continue" → semicolon.lexeme = ";" →
      Spells (.statement .continues) [word, semicolon]
  | nil : Spells (.statements []) []
  | cons {s : Stmt} {body : List Stmt} {tokens more : List Token} :
      Spells (.statement s) tokens → Spells (.statements body) more →
      Spells (.statements (s :: body)) (tokens ++ more)
  | braces {opening closing : Token} {body : List Stmt} {tokens : List Token} :
      opening.lexeme = "\x7b" → Spells (.statements body) tokens → closing.lexeme = "\x7d" →
      Spells (.block body) (opening :: (tokens ++ [closing]))
  | noClause : Spells (.clauses []) []
  | clause {word opening name closing : Token} {exception : TypeName} {body : List Stmt}
      {list : List (CatchClause Stmt)} {head tokens more : List Token} : word.lexeme = "catch" →
      opening.lexeme = "(" → SpellsType exception head → IsName name → closing.lexeme = ")" →
      Spells (.block body) tokens → Spells (.clauses list) more →
      Spells (.clauses (⟨exception, name.lexeme, body, name.position⟩ :: list))
        (word :: opening :: (head ++ name :: closing :: (tokens ++ more)))
  | done {closing : Token} : closing.lexeme = "\x7d" → Spells (.sections ⟨[], none⟩) [closing]
  | label {word colon : Token} {value : Expr} {body : List Stmt} {others : SwitchBody}
      {head tokens more : List Token} : word.lexeme = "case" → SpellsExpr value head →
      colon.lexeme = ":" → Spells (.statements body) tokens → Spells (.sections others) more →
      Spells (.sections ⟨⟨value, body⟩ :: others.cases, others.default⟩)
        (word :: (head ++ colon :: (tokens ++ more)))
  | default {word colon : Token} {body : List Stmt} {others : SwitchBody}
      {tokens more : List Token} : word.lexeme = "default" → colon.lexeme = ":" →
      Spells (.statements body) tokens → Spells (.sections others) more →
      Spells (.sections ⟨others.cases, others.default.or (some body)⟩)
        (word :: colon :: (tokens ++ more))

inductive SpellsMethod : Method → List Token → Prop
  | mk {name opening closing : Token} {modifiers : List Modifier} {returnType : Option TypeName}
      {params : List Param} {body : List Stmt} {head tokens : List Token} : IsName name →
      opening.lexeme = "(" → Listed SpellsParam params head → closing.lexeme = ")" →
      Spells (.block body) tokens →
      SpellsMethod ⟨modifiers, returnType, name.lexeme, params, body, name.position⟩
        (name :: opening :: (head ++ closing :: tokens))

inductive ClassPhrase where
  | decl (decl : ClassDecl)
  | members (className : String) (list : List Member)

inductive SpellsClass : ClassPhrase → List Token → Prop
  | decl {word name opening : Token} {modifiers : List Modifier} {list : List Member}
      {tokens : List Token} : word.lexeme = "class" → IsName name → opening.lexeme = "\x7b" →
      SpellsClass (.members name.lexeme list) tokens →
      SpellsClass (.decl ⟨modifiers, name.lexeme, list, word.position⟩)
        (word :: name :: opening :: tokens)
  | done {className : String} {closing : Token} : closing.lexeme = "\x7d" →
      SpellsClass (.members className []) [closing]
  | skip {className : String} {list : List Member} {semicolon : Token} {tokens : List Token} :
      semicolon.lexeme = ";" → SpellsClass (.members className list) tokens →
      SpellsClass (.members className list) (semicolon :: tokens)
  | field {className : String} {decl : VarDecl} {list : List Member} {semicolon : Token}
      {tokens more : List Token} : SpellsVariable decl tokens → semicolon.lexeme = ";" →
      SpellsClass (.members className list) more →
      SpellsClass (.members className (.field decl :: list)) (tokens ++ semicolon :: more)
  | method {className : String} {decl : Method} {type : TypeName} {list : List Member}
      {words head tokens more : List Token} : SpellsModifiers decl.modifiers words →
      decl.returnType = some type → SpellsType type head → SpellsMethod decl tokens →
      SpellsClass (.members className list) more →
      SpellsClass (.members className (.method decl :: list))
        (words ++ (head ++ (tokens ++ more)))
  | constructor {className : String} {decl : Method} {list : List Member}
      {words tokens more : List Token} : SpellsModifiers decl.modifiers words →
      decl.returnType = none → decl.name = className → SpellsMethod decl tokens →
      SpellsClass (.members className list) more →
      SpellsClass (.members className (.method decl :: list)) (words ++ (tokens ++ more))
  | nested {className : String} {decl : ClassDecl} {list : List Member}
      {words tokens more : List Token} : SpellsModifiers decl.modifiers words →
      SpellsClass (.decl decl) tokens → SpellsClass (.members className list) more →
      SpellsClass (.members className (.nested decl :: list)) (words ++ (tokens ++ more))

inductive SpellsItems : List Item → List Token → Prop
  | nil : SpellsItems [] []
  | declaration {decl : ClassDecl} {list : List Item} {words tokens more : List Token} :
      SpellsModifiers decl.modifiers words → SpellsClass (.decl decl) tokens →
      SpellsItems list more →
      SpellsItems (.declaration decl :: list) (words ++ (tokens ++ more))
  | statement {s : Stmt} {list : List Item} {tokens more : List Token} :
      Spells (.statement s) tokens → SpellsItems list more →
      SpellsItems (.statement s :: list) (tokens ++ more)

end Grammar

end MiniJava
