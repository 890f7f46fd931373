import MiniJava.Grammar.Program
import MiniJava.Proofs.Grammar.Outcome

/-!
# What a reading of a program gives

The readers of declarations, statements and classes as equations between outcomes, one for each
production. What stands behind a reader is read from the tokens it has left.
-/

namespace MiniJava.Grammar

open Reading

theorem outcome_expect {lexeme : String} {token : Token} (rest : List Token)
    (h : token.lexeme = lexeme) : (expect lexeme (token :: rest)).outcome = .ok (token, rest) := by
  rw [outcome_expect_cons, if_pos h]

theorem outcome_expect_eq_ok {lexeme : String} {tokens rest : List Token} {token : Token} :
    (expect lexeme tokens).outcome = .ok (token, rest) ↔
      tokens = token :: rest ∧ token.lexeme = lexeme := by
  cases tokens with
  | nil => exact ⟨nofun, fun h => nomatch h.1⟩
  | cons next tokens =>
      rw [outcome_expect_cons]
      by_cases hnext : next.lexeme = lexeme
      · rw [if_pos hnext]
        constructor
        · intro h
          cases h
          exact ⟨rfl, hnext⟩
        · rintro ⟨h, -⟩
          cases h
          rfl
      · rw [if_neg hnext]
        constructor
        · nofun
        · rintro ⟨h, hlexeme⟩
          cases h
          exact absurd hlexeme hnext

theorem outcome_identifier {token : Token} (rest : List Token) (h : token.kind = .identifier) :
    (identifier (token :: rest)).outcome = .ok (token, rest) := by
  rw [outcome_identifier_cons, if_pos h]

theorem outcome_identifier_eq_ok {tokens rest : List Token} {token : Token} :
    (identifier tokens).outcome = .ok (token, rest) ↔
      tokens = token :: rest ∧ token.kind = .identifier := by
  cases tokens with
  | nil => exact ⟨nofun, fun h => nomatch h.1⟩
  | cons next tokens =>
      rw [outcome_identifier_cons]
      by_cases hnext : next.kind = .identifier
      · rw [if_pos hnext]
        constructor
        · intro h
          cases h
          exact ⟨rfl, hnext⟩
        · rintro ⟨h, -⟩
          cases h
          rfl
      · rw [if_neg hnext]
        constructor
        · nofun
        · rintro ⟨h, hkind⟩
          cases h
          exact absurd hkind hnext

theorem skip?_eq_some {n : Nat} {lexeme : String} {tokens : List Token}
    (lt : tokens.length < n) (h : nextIs lexeme tokens = true) :
    ∃ parsed, skip? lexeme tokens lt = some parsed ∧ parsed.rest = tokens.tail := by
  cases tokens with
  | nil => cases h
  | cons token rest =>
      have hlexeme : token.lexeme = lexeme := of_decide_eq_true h
      refine ⟨(Parsed.here token rest).behind lt, ?_, rfl⟩
      rw [skip?, expect, if_pos hlexeme]

theorem skip?_eq_none {n : Nat} {lexeme : String} {tokens : List Token}
    (lt : tokens.length < n) (h : nextIs lexeme tokens = false) :
    skip? lexeme tokens lt = none := by
  cases tokens with
  | nil => rfl
  | cons token rest =>
      have hlexeme : ¬ token.lexeme = lexeme := of_decide_eq_false h
      rw [skip?, expect, if_neg hlexeme]
      rfl

theorem outcome_parenthesized (tokens : List Token) :
    (parenthesized tokens).outcome =
      (expect "(" tokens).outcome.andThen fun _ rest =>
        (expression rest).outcome.andThen fun e rest =>
          (expect ")" rest).outcome.andThen fun _ rest => .ok (e, rest) := by
  rw [parenthesized]
  refine outcome_bind rfl fun _ => ?_
  refine outcome_bind (by simp) fun _ => ?_
  exact outcome_bind (by simp) fun _ => rfl

theorem outcome_expressions (tokens : List Token) :
    (expressions tokens).outcome =
      (expression tokens).outcome.andThen fun e rest =>
        if nextIs "," rest then
          (expressions rest.tail).outcome.andThen fun es rest => .ok (e :: es, rest)
        else .ok ([e], rest) := by
  rw [expressions]
  refine outcome_bind rfl fun parsed => ?_
  obtain ⟨e, rest, lt⟩ := parsed
  dsimp only
  cases hnext : nextIs "," rest with
  | false =>
      rw [skip?_eq_none lt hnext]
      rfl
  | true =>
      obtain ⟨comma, hskip, hrest⟩ := skip?_eq_some lt hnext
      rw [hskip, if_pos rfl, ← hrest]
      exact outcome_bind (by simp) fun _ => rfl

theorem outcome_expressionUnless (stop : String) (tokens : List Token) :
    (expressionUnless stop tokens).outcome =
      if nextIs stop tokens then .ok (none, tokens)
      else (expression tokens).outcome.andThen fun e rest => .ok (some e, rest) := by
  rw [expressionUnless]
  split
  · rfl
  · exact outcome_bind (by simp) fun _ => rfl

theorem outcome_expressionsUnless (stop : String) (tokens : List Token) :
    (expressionsUnless stop tokens).outcome =
      if nextIs stop tokens then .ok ([], tokens) else (expressions tokens).outcome := by
  rw [expressionsUnless]
  split
  · rfl
  · rw [outcome_later]

theorem outcome_dimensions_pair {left right : Token} (rest : List Token) (hleft : left.lexeme = "[")
    (hright : right.lexeme = "]") :
    (dimensions (left :: right :: rest)).outcome =
      (dimensions rest).outcome.andThen fun n rest => .ok (n + 1, rest) := by
  rw [dimensions, if_pos hleft, if_pos hright]
  exact outcome_bind (by simp) fun _ => rfl

theorem outcome_dimensions_stop {tokens : List Token} (h : nextIs "[" tokens = false) :
    (dimensions tokens).outcome = .ok (0, tokens) := by
  match tokens with
  | [] => rfl
  | [token] =>
      rw [dimensions, if_neg (of_decide_eq_false h)]
      rfl
  | left :: right :: rest =>
      rw [dimensions, if_neg (of_decide_eq_false h)]
      rfl

theorem outcome_typeName {token : Token} (rest : List Token) (h : namesType token = true) :
    (typeName (token :: rest)).outcome =
      (dimensions rest).outcome.andThen fun n rest => .ok (⟨token.lexeme, n⟩, rest) := by
  rw [typeName, if_pos h]
  exact outcome_bind rfl fun _ => rfl

theorem outcome_initializer_none {tokens : List Token} (h : nextIs "=" tokens = false) :
    (initializer tokens).outcome = .ok (none, tokens) := by
  cases tokens with
  | nil => rfl
  | cons token rest =>
      rw [initializer, if_neg (of_decide_eq_false h)]
      rfl

theorem outcome_initializer_some {token : Token} (rest : List Token) (h : token.lexeme = "=") :
    (initializer (token :: rest)).outcome =
      (expression rest).outcome.andThen fun e rest => .ok (some e, rest) := by
  rw [initializer, if_pos h]
  exact outcome_bind (by simp) fun _ => rfl

theorem outcome_declarator (mods : List Modifier) (type : TypeName) (name : Token)
    (tokens : List Token) :
    (declarator mods type name tokens).outcome =
      (initializer tokens).outcome.andThen fun init rest =>
        .ok (⟨mods, type, name.lexeme, init, name.position⟩, rest) := by
  rw [declarator]
  exact outcome_bind rfl fun _ => rfl

theorem outcome_localVariable (mods : List Modifier) (tokens : List Token) :
    (localVariable mods tokens).outcome =
      (typeName tokens).outcome.andThen fun type rest =>
        (identifier rest).outcome.andThen fun name rest =>
          (declarator mods type name rest).outcome := by
  rw [localVariable]
  refine outcome_bind rfl fun _ => ?_
  refine outcome_bind (by simp) fun _ => ?_
  exact outcome_optional _ _

theorem outcome_declaration (tokens : List Token) :
    (declaration tokens).outcome =
      (localVariable (modifiers tokens).value (modifiers tokens).rest).outcome.andThen
        fun decl rest => .ok (.declare decl, rest) := by
  rw [declaration]
  exact outcome_bind (by simp) fun _ => rfl

theorem outcome_expressionStatement (tokens : List Token) :
    (expressionStatement tokens).outcome =
      (expression tokens).outcome.andThen fun e rest => .ok (.expression e, rest) := by
  rw [expressionStatement]
  exact outcome_bind rfl fun _ => rfl

theorem outcome_declarationOrExpression (tokens : List Token) :
    (declarationOrExpression tokens).outcome =
      if !(modifiers tokens).value.isEmpty || beginsDeclaration tokens then
        (declaration tokens).outcome
      else (expressionStatement tokens).outcome := by
  rw [declarationOrExpression]
  split <;> rfl

theorem outcome_forInit (tokens : List Token) :
    (forInit tokens).outcome =
      if nextIs ";" tokens then .ok (none, tokens)
      else (if beginsDeclaration tokens || nextIs "final" tokens then (declaration tokens).outcome
        else (expressionStatement tokens).outcome).andThen fun s rest => .ok (some s, rest) := by
  rw [forInit]
  split
  · rfl
  · split
    · exact outcome_bind (by simp) fun _ => rfl
    · exact outcome_bind (by simp) fun _ => rfl

theorem outcome_forHeader (tokens : List Token) :
    (forHeader tokens).outcome =
      (expect "(" tokens).outcome.andThen fun _ rest =>
        (forInit rest).outcome.andThen fun init rest =>
          (expect ";" rest).outcome.andThen fun _ rest =>
            (expressionUnless ";" rest).outcome.andThen fun condition rest =>
              (expect ";" rest).outcome.andThen fun _ rest =>
                (expressionsUnless ")" rest).outcome.andThen fun update rest =>
                  (expect ")" rest).outcome.andThen fun _ rest =>
                    .ok (⟨init, condition, update⟩, rest) := by
  rw [forHeader]
  refine outcome_bind rfl fun _ => ?_
  refine outcome_bind (by simp) fun _ => ?_
  refine outcome_bind (by simp) fun _ => ?_
  refine outcome_bind (by simp) fun _ => ?_
  refine outcome_bind (by simp) fun _ => ?_
  refine outcome_bind (by simp) fun _ => ?_
  exact outcome_bind (by simp) fun _ => rfl

theorem outcome_catchHeader (tokens : List Token) :
    (catchHeader tokens).outcome =
      (expect "(" tokens).outcome.andThen fun _ rest =>
        (typeName rest).outcome.andThen fun exception rest =>
          (identifier rest).outcome.andThen fun name rest =>
            (expect ")" rest).outcome.andThen fun _ rest => .ok ((exception, name), rest) := by
  rw [catchHeader]
  refine outcome_bind rfl fun _ => ?_
  refine outcome_bind (by simp) fun _ => ?_
  refine outcome_bind (by simp) fun _ => ?_
  exact outcome_bind (by simp) fun _ => rfl

theorem outcome_printCall (call : Token) (tokens : List Token) :
    (printCall call tokens).outcome =
      (expect "(" tokens).outcome.andThen fun _ rest =>
        (expressionsUnless ")" rest).outcome.andThen fun args rest =>
          (expect ")" rest).outcome.andThen fun _ rest =>
            (expect ";" rest).outcome.andThen fun _ rest =>
              .ok (.print (printKind call.lexeme) args call.position, rest) := by
  rw [printCall]
  refine outcome_bind rfl fun _ => ?_
  refine outcome_bind (by simp) fun _ => ?_
  refine outcome_bind (by simp) fun _ => ?_
  exact outcome_bind (by simp) fun _ => rfl

section Statement

variable {token : Token} (rest : List Token)

theorem outcome_block (tokens : List Token) :
    (block tokens).outcome =
      (expect "\x7b" tokens).outcome.andThen fun _ rest => (blockBody rest).outcome := by
  rw [block]
  exact outcome_bind rfl fun _ => outcome_behind _ _

theorem outcome_statement_block (h : token.lexeme = "\x7b") :
    (statement (token :: rest)).outcome =
      (blockBody rest).outcome.andThen fun body rest => .ok (.block body, rest) := by
  rw [statement, h]
  exact outcome_bind (by simp) fun _ => rfl

theorem outcome_statement_empty (h : token.lexeme = ";") :
    (statement (token :: rest)).outcome = .ok (.empty, rest) := by
  rw [statement, h]
  rfl

theorem outcome_statement_if (h : token.lexeme = "if") :
    (statement (token :: rest)).outcome =
      (parenthesized rest).outcome.andThen fun e rest =>
        (statement rest).outcome.andThen fun thenBranch rest =>
          if nextIs "else" rest then
            (statement rest.tail).outcome.andThen fun elseBranch rest =>
              .ok (.ifElse e thenBranch (some elseBranch), rest)
          else .ok (.ifElse e thenBranch none, rest) := by
  rw [statement, h]
  refine outcome_bind (by simp) fun _ => ?_
  refine outcome_bind (by simp) fun parsed => ?_
  obtain ⟨thenBranch, rest, lt⟩ := parsed
  dsimp only
  cases hnext : nextIs "else" rest with
  | false =>
      rw [skip?_eq_none lt hnext]
      rfl
  | true =>
      obtain ⟨word, hskip, hrest⟩ := skip?_eq_some lt hnext
      rw [hskip, if_pos rfl, ← hrest]
      exact outcome_bind (by simp) fun _ => rfl

theorem outcome_statement_while (h : token.lexeme = "while") :
    (statement (token :: rest)).outcome =
      (parenthesized rest).outcome.andThen fun e rest =>
        (statement rest).outcome.andThen fun body rest => .ok (.whileLoop e body, rest) := by
  rw [statement, h]
  refine outcome_bind (by simp) fun _ => ?_
  exact outcome_bind (by simp) fun _ => rfl

theorem outcome_statement_do (h : token.lexeme = "do") :
    (statement (token :: rest)).outcome =
      (statement rest).outcome.andThen fun body rest =>
        (expect "while" rest).outcome.andThen fun _ rest =>
          (parenthesized rest).outcome.andThen fun e rest =>
            (expect ";" rest).outcome.andThen fun _ rest => .ok (.doWhile body e, rest) := by
  rw [statement, h]
  refine outcome_bind (by simp) fun _ => ?_
  refine outcome_bind (by simp) fun _ => ?_
  refine outcome_bind (by simp) fun _ => ?_
  exact outcome_bind (by simp) fun _ => rfl

theorem outcome_statement_for (h : token.lexeme = "for") :
    (statement (token :: rest)).outcome =
      (forHeader rest).outcome.andThen fun header rest =>
        (statement rest).outcome.andThen fun body rest =>
          .ok (.forLoop header.init header.condition header.update body, rest) := by
  rw [statement, h]
  refine outcome_bind (by simp) fun _ => ?_
  exact outcome_bind (by simp) fun _ => rfl

theorem outcome_statement_switch (h : token.lexeme = "switch") :
    (statement (token :: rest)).outcome =
      (parenthesized rest).outcome.andThen fun e rest =>
        (expect "\x7b" rest).outcome.andThen fun _ rest =>
          (switchBody rest).outcome.andThen fun body rest =>
            .ok (.switch e body.cases body.default, rest) := by
  rw [statement, h]
  refine outcome_bind (by simp) fun _ => ?_
  refine outcome_bind (by simp) fun _ => ?_
  exact outcome_bind (by simp) fun _ => rfl

theorem outcome_statement_try (h : token.lexeme = "try") :
    (statement (token :: rest)).outcome =
      (block rest).outcome.andThen fun body rest =>
        (catches rest).outcome.andThen fun clauses rest =>
          if nextIs "finally" rest then
            (block rest.tail).outcome.andThen fun cleanup rest =>
              .ok (.tryCatch body clauses (some cleanup), rest)
          else if clauses.isEmpty then .error (.atNext .handler rest)
          else .ok (.tryCatch body clauses none, rest) := by
  rw [statement, h]
  refine outcome_bind (by simp) fun _ => ?_
  refine outcome_bind (by simp) fun parsed => ?_
  obtain ⟨clauses, rest, lt⟩ := parsed
  dsimp only
  cases hnext : nextIs "finally" rest with
  | false =>
      rw [skip?_eq_none lt hnext, if_neg Bool.false_ne_true]
      dsimp only
      split <;> rfl
  | true =>
      obtain ⟨word, hskip, hrest⟩ := skip?_eq_some lt hnext
      rw [hskip, if_pos rfl, ← hrest]
      exact outcome_bind (by simp) fun _ => rfl

theorem outcome_statement_return (h : token.lexeme = "return") :
    (statement (token :: rest)).outcome =
      (expressionUnless ";" rest).outcome.andThen fun value rest =>
        (expect ";" rest).outcome.andThen fun _ rest =>
          .ok (.returns value token.position, rest) := by
  rw [statement, h]
  refine outcome_bind rfl fun _ => ?_
  exact outcome_bind (by simp) fun _ => rfl

theorem outcome_statement_break (h : token.lexeme = "break") :
    (statement (token :: rest)).outcome =
      (expect ";" rest).outcome.andThen fun _ rest => .ok (.breaks, rest) := by
  rw [statement, h]
  exact outcome_bind (by simp) fun _ => rfl

theorem outcome_statement_continue (h : token.lexeme = "continue") :
    (statement (token :: rest)).outcome =
      (expect ";" rest).outcome.andThen fun _ rest => .ok (.continues, rest) := by
  rw [statement, h]
  exact outcome_bind (by simp) fun _ => rfl

def statementLexemes : List String :=
  ["\x7b", ";", "if", "while", "do", "for", "switch", "try", "return", "break", "continue"]

theorem outcome_statement_other (h : token.lexeme ∉ statementLexemes) :
    (statement (token :: rest)).outcome =
      if token.kind = .printCall then (printCall token rest).outcome
      else (declarationOrExpression (token :: rest)).outcome.andThen fun s rest =>
        (expect ";" rest).outcome.andThen fun _ rest => .ok (s, rest) := by
  simp only [statementLexemes, List.mem_cons, List.not_mem_nil, or_false, not_or] at h
  rw [statement]
  split
  all_goals simp_all
  split
  · exact outcome_later _
  · refine outcome_bind rfl fun _ => ?_
    exact outcome_bind (by simp) fun _ => rfl

theorem outcome_statement_nil : (statement []).outcome = .error (.unexpectedEnd .statement) := by
  rw [statement]
  rfl

theorem outcome_blockBody_nil : (blockBody []).outcome = .error (.unexpectedEnd .blockEnd) := by
  rw [blockBody]
  rfl

theorem outcome_blockBody_end (h : token.lexeme = "\x7d") :
    (blockBody (token :: rest)).outcome = .ok ([], rest) := by
  rw [blockBody, if_pos h]
  rfl

theorem outcome_blockBody_cons (h : token.lexeme ≠ "\x7d") :
    (blockBody (token :: rest)).outcome =
      (statement (token :: rest)).outcome.andThen fun s rest =>
        (blockBody rest).outcome.andThen fun more rest => .ok (s :: more, rest) := by
  rw [blockBody, if_neg h]
  refine outcome_bind rfl fun _ => ?_
  exact outcome_bind (by simp) fun _ => rfl

theorem outcome_catches_cons (h : token.lexeme = "catch") :
    (catches (token :: rest)).outcome =
      (catchHeader rest).outcome.andThen fun header rest =>
        (block rest).outcome.andThen fun body rest =>
          (catches rest).outcome.andThen fun more rest =>
            .ok (⟨header.1, header.2.lexeme, body, header.2.position⟩ :: more, rest) := by
  rw [catches, if_pos h, outcome_later]
  refine outcome_bind (by simp) fun _ => ?_
  refine outcome_bind (by simp) fun _ => ?_
  exact outcome_bind (by simp) fun _ => rfl

theorem outcome_catches_stop {tokens : List Token} (h : nextIs "catch" tokens = false) :
    (catches tokens).outcome = .ok ([], tokens) := by
  cases tokens with
  | nil =>
      rw [catches]
      rfl
  | cons token rest =>
      rw [catches, if_neg (of_decide_eq_false h)]
      rfl

theorem outcome_switchBody_case (h : token.lexeme = "case") :
    (switchBody (token :: rest)).outcome =
      (expression rest).outcome.andThen fun value rest =>
        (expect ":" rest).outcome.andThen fun _ rest =>
          (caseBody rest).outcome.andThen fun body rest =>
            (switchBody rest).outcome.andThen fun more rest =>
              .ok (⟨⟨value, body⟩ :: more.cases, more.default⟩, rest) := by
  rw [switchBody, if_pos h]
  refine outcome_bind (by simp) fun _ => ?_
  refine outcome_bind (by simp) fun _ => ?_
  refine outcome_bind (by simp) fun _ => ?_
  exact outcome_bind (by simp) fun _ => rfl

theorem outcome_switchBody_default (h : token.lexeme = "default") :
    (switchBody (token :: rest)).outcome =
      (expect ":" rest).outcome.andThen fun _ rest =>
        (caseBody rest).outcome.andThen fun body rest =>
          (switchBody rest).outcome.andThen fun more rest =>
            .ok (⟨more.cases, more.default.or (some body)⟩, rest) := by
  have hcase : token.lexeme ≠ "case" := by simp [h]
  rw [switchBody, if_neg hcase, if_pos h]
  refine outcome_bind (by simp) fun _ => ?_
  refine outcome_bind (by simp) fun _ => ?_
  exact outcome_bind (by simp) fun _ => rfl

theorem outcome_switchBody_end (h : token.lexeme = "\x7d") :
    (switchBody (token :: rest)).outcome = .ok (⟨[], none⟩, rest) := by
  have hcase : token.lexeme ≠ "case" := by simp [h]
  have hdefault : token.lexeme ≠ "default" := by simp [h]
  rw [switchBody, if_neg hcase, if_neg hdefault, if_pos h]
  rfl

theorem outcome_switchBody_other (hcase : token.lexeme ≠ "case")
    (hdefault : token.lexeme ≠ "default") (hend : token.lexeme ≠ "\x7d") :
    (switchBody (token :: rest)).outcome = .error (.atNext .switchLabel (token :: rest)) := by
  rw [switchBody, if_neg hcase, if_neg hdefault, if_neg hend]
  rfl

theorem outcome_switchBody_nil :
    (switchBody []).outcome = .error (.unexpectedEnd .switchLabel) := by
  rw [switchBody]
  rfl

theorem outcome_caseBody_nil : (caseBody []).outcome = .error (.unexpectedEnd .switchEnd) := by
  rw [caseBody]
  rfl

theorem outcome_caseBody_end (h : endsCase token = true) :
    (caseBody (token :: rest)).outcome = .ok ([], token :: rest) := by
  rw [caseBody, if_pos h]
  rfl

theorem outcome_caseBody_cons (h : ¬ endsCase token = true) :
    (caseBody (token :: rest)).outcome =
      (statement (token :: rest)).outcome.andThen fun s rest =>
        (caseBody rest).outcome.andThen fun more rest => .ok (s :: more, rest) := by
  rw [caseBody, if_neg h, outcome_later]
  refine outcome_bind rfl fun _ => ?_
  exact outcome_bind (by simp) fun _ => rfl

end Statement

theorem outcome_param (tokens : List Token) :
    (param tokens).outcome =
      (typeName tokens).outcome.andThen fun type rest =>
        (identifier rest).outcome.andThen fun name rest =>
          .ok (⟨type, name.lexeme, name.position⟩, rest) := by
  rw [param]
  refine outcome_bind rfl fun _ => ?_
  exact outcome_bind (by simp) fun _ => rfl

theorem outcome_params (tokens : List Token) :
    (params tokens).outcome =
      (param tokens).outcome.andThen fun first rest =>
        if nextIs "," rest then
          (params rest.tail).outcome.andThen fun more rest => .ok (first :: more, rest)
        else .ok ([first], rest) := by
  rw [params]
  refine outcome_bind rfl fun parsed => ?_
  obtain ⟨first, rest, lt⟩ := parsed
  dsimp only
  cases hnext : nextIs "," rest with
  | false =>
      rw [skip?_eq_none lt hnext]
      rfl
  | true =>
      obtain ⟨comma, hskip, hrest⟩ := skip?_eq_some lt hnext
      rw [hskip, if_pos rfl, ← hrest]
      exact outcome_bind (by simp) fun _ => rfl

theorem outcome_paramsUnless (stop : String) (tokens : List Token) :
    (paramsUnless stop tokens).outcome =
      if nextIs stop tokens then .ok ([], tokens) else (params tokens).outcome := by
  rw [paramsUnless]
  split
  · rfl
  · rw [outcome_later]

theorem outcome_method (mods : List Modifier) (returnType : Option TypeName) (name : Token)
    (tokens : List Token) :
    (method mods returnType name tokens).outcome =
      (expect "(" tokens).outcome.andThen fun _ rest =>
        (paramsUnless ")" rest).outcome.andThen fun params rest =>
          (expect ")" rest).outcome.andThen fun _ rest =>
            (block rest).outcome.andThen fun body rest =>
              .ok (⟨mods, returnType, name.lexeme, params, body, name.position⟩, rest) := by
  rw [method]
  refine outcome_bind rfl fun _ => ?_
  refine outcome_bind (by simp) fun _ => ?_
  refine outcome_bind (by simp) fun _ => ?_
  exact outcome_bind (by simp) fun _ => rfl

theorem outcome_constructor (mods : List Modifier) (tokens : List Token) :
    (constructor mods tokens).outcome =
      (identifier tokens).outcome.andThen fun name rest =>
        (method mods none name rest).outcome.andThen fun decl rest => .ok (.method decl, rest) := by
  rw [constructor]
  refine outcome_bind rfl fun _ => ?_
  exact outcome_bind (by simp) fun _ => rfl

theorem outcome_typedMember (mods : List Modifier) (tokens : List Token) :
    (typedMember mods tokens).outcome =
      (typeName tokens).outcome.andThen fun type rest =>
        (identifier rest).outcome.andThen fun name rest =>
          if nextIs "(" rest then
            (method mods (some type) name rest).outcome.andThen fun decl rest =>
              .ok (.method decl, rest)
          else (declarator mods type name rest).outcome.andThen fun decl rest =>
            (expect ";" rest).outcome.andThen fun _ rest => .ok (.field decl, rest) := by
  rw [typedMember]
  refine outcome_bind rfl fun _ => ?_
  refine outcome_bind (by simp) fun parsed => ?_
  obtain ⟨name, rest, lt⟩ := parsed
  dsimp only
  split
  · exact outcome_bind (by simp) fun _ => rfl
  · refine outcome_bind (by simp) fun _ => ?_
    exact outcome_bind (by simp) fun _ => rfl

theorem outcome_methodOrField (className : String) (mods : List Modifier) (tokens : List Token) :
    (methodOrField className mods tokens).outcome =
      if beginsConstructor className tokens then (constructor mods tokens).outcome
      else (typedMember mods tokens).outcome := by
  rw [methodOrField]
  split <;> rfl

theorem outcome_classDecl (mods : List Modifier) (tokens : List Token) :
    (classDecl mods tokens).outcome =
      (expect "class" tokens).outcome.andThen fun keyword rest =>
        (identifier rest).outcome.andThen fun name rest =>
          (expect "\x7b" rest).outcome.andThen fun _ rest =>
            (members name.lexeme rest).outcome.andThen fun list rest =>
              .ok (⟨mods, name.lexeme, list, keyword.position⟩, rest) := by
  rw [classDecl]
  refine outcome_bind rfl fun _ => ?_
  refine outcome_bind (by simp) fun _ => ?_
  refine outcome_bind (by simp) fun _ => ?_
  exact outcome_bind (by simp) fun _ => rfl

theorem outcome_member (className : String) (tokens : List Token) :
    (member className tokens).outcome =
      if nextIs "class" (modifiers tokens).rest then
        (classDecl (modifiers tokens).value (modifiers tokens).rest).outcome.andThen
          fun decl rest => .ok (.nested decl, rest)
      else (methodOrField className (modifiers tokens).value (modifiers tokens).rest).outcome := by
  rw [member]
  dsimp only
  split
  · exact outcome_bind (by simp) fun _ => rfl
  · exact outcome_first _ _

theorem outcome_members_nil (className : String) :
    (members className []).outcome = .error (.unexpectedEnd .classEnd) := by
  rw [members]
  rfl

theorem outcome_members_end (className : String) {token : Token} (rest : List Token)
    (h : token.lexeme = "\x7d") : (members className (token :: rest)).outcome = .ok ([], rest) := by
  rw [members, if_pos h]
  rfl

theorem outcome_members_skip (className : String) {token : Token} (rest : List Token)
    (h : token.lexeme = ";") :
    (members className (token :: rest)).outcome = (members className rest).outcome := by
  have hend : token.lexeme ≠ "\x7d" := by simp [h]
  rw [members, if_neg hend, if_pos h, outcome_later]

theorem outcome_members_cons (className : String) {token : Token} (rest : List Token)
    (hend : token.lexeme ≠ "\x7d") (hskip : token.lexeme ≠ ";") :
    (members className (token :: rest)).outcome =
      (member className (token :: rest)).outcome.andThen fun first rest =>
        (members className rest).outcome.andThen fun more rest => .ok (first :: more, rest) := by
  rw [members, if_neg hend, if_neg hskip]
  refine outcome_bind rfl fun _ => ?_
  exact outcome_bind (by simp) fun _ => rfl

theorem outcome_item (tokens : List Token) :
    (item tokens).outcome =
      if nextIs "class" (modifiers tokens).rest then
        (classDecl (modifiers tokens).value (modifiers tokens).rest).outcome.andThen
          fun decl rest => .ok (.declaration decl, rest)
      else (statement tokens).outcome.andThen fun s rest => .ok (.statement s, rest) := by
  rw [item]
  dsimp only
  split
  · exact outcome_bind (by simp) fun _ => rfl
  · exact outcome_bind rfl fun _ => rfl

theorem items_nil : items [] = .ok [] := by
  rw [items]
  rfl

theorem items_cons (token : Token) (rest : List Token) :
    items (token :: rest) =
      match (item (token :: rest)).outcome with
      | .ok (first, rest) => (items rest).map (first :: ·)
      | .error error => .error error := by
  rw [items]
  cases item (token :: rest) with
  | error error => rfl
  | ok parsed =>
      change (items parsed.rest >>= fun more => Except.ok (parsed.value :: more)) =
        (items parsed.rest).map (parsed.value :: ·)
      cases items parsed.rest <;> rfl

end MiniJava.Grammar
