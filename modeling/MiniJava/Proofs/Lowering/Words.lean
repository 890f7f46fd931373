import Mathlib.Data.List.Forall2
import MiniJava.Proofs.Lowering.References

/-!
# Names in emitted code

The names in a scope of emitted code stand in the order of the text, and so do those in the source
that it is made of; the two lists have the same names in the same places. Where the source declares
a name, the emitted code binds a variable.
-/

namespace MiniJava

structure Mention where
  text : String
  declares : Bool
deriving DecidableEq, Repr

namespace Mention

def used (text : String) : Mention := ⟨text, false⟩

def declared (text : String) : Mention := ⟨text, true⟩

end Mention

def Expr.mentioned (e : Expr) : List Mention := e.names.map .used

def mentionedIn (list : List Expr) : List Mention := (namesIn list).map .used

mutual

/-- The names in the part of a statement that reaches the emitted text. -/
def Stmt.mentioned : Stmt → List Mention
  | .declare decl => .declared decl.name :: mentionedIn decl.init.toList
  | .expression e => e.mentioned
  | .block body => bodyMentioned body
  | .ifElse e thenBranch none => e.mentioned ++ thenBranch.mentioned
  | .ifElse e thenBranch (some elseBranch) =>
    e.mentioned ++ thenBranch.mentioned ++ elseBranch.mentioned
  | .whileLoop e body => e.mentioned ++ body.mentioned
  | .doWhile body e => body.mentioned ++ e.mentioned
  | .forLoop none e update body =>
    mentionedIn e.toList ++ (body.mentioned ++ mentionedIn update)
  | .forLoop (some init) e update body =>
    match RangeLoop.detect? init e update body with
    | some loop =>
      ⟨loop.counter, init.declared.contains loop.counter⟩ :: loop.start.mentioned ++
        loop.stop.mentioned ++ body.mentioned
    | none =>
      init.mentioned ++ (mentionedIn e.toList ++ (body.mentioned ++ mentionedIn update))
  | .switch scrutinee cases none => labelsMentioned scrutinee.mentioned [] cases
  | .switch scrutinee cases (some default) =>
    labelsMentioned scrutinee.mentioned [] cases ++ caseMentioned default
  | .tryCatch body catches none => bodyMentioned body ++ catchesMentioned catches
  | .tryCatch body catches (some cleanup) =>
    bodyMentioned body ++ catchesMentioned catches ++ bodyMentioned cleanup
  | .print kind args _ => mentionedIn (kind.shown args)
  | .returns value _ => mentionedIn value.toList
  | .breaks | .continues | .empty => []

def bodyMentioned : List Stmt → List Mention
  | [] => []
  | first :: rest => first.mentioned ++ bodyMentioned rest

def caseMentioned : List Stmt → List Mention
  | [] => []
  | .breaks :: _ => []
  | first :: rest => first.mentioned ++ caseMentioned rest

def labelsMentioned (subject pending : List Mention) : List (SwitchCase Stmt) → List Mention
  | [] => []
  | ⟨label, body⟩ :: rest =>
    let tests := pending ++ (subject ++ label.mentioned)
    if body.isEmpty then labelsMentioned subject tests rest
    else tests ++ caseMentioned body ++ labelsMentioned subject [] rest

def catchesMentioned : List (CatchClause Stmt) → List Mention
  | [] => []
  | ⟨_, name, body, _⟩ :: rest => .declared name :: bodyMentioned body ++ catchesMentioned rest

end

def fieldsMentioned : List Member → List Mention
  | [] => []
  | .field decl :: rest =>
    .declared decl.name :: mentionedIn decl.init.toList ++ fieldsMentioned rest
  | .method _ :: rest => fieldsMentioned rest
  | .nested _ :: rest => fieldsMentioned rest

def membersMentioned : List Member → List Mention
  | [] => []
  | .field _ :: rest => membersMentioned rest
  | .method decl :: rest => .declared (Lowering.methodName decl) :: membersMentioned rest
  | .nested decl :: rest => .declared decl.name :: membersMentioned rest

/-- The parameters of a method and the names in its body. -/
def Method.mentioned (decl : Method) : List Mention :=
  (Lowering.paramNames decl).map .declared ++ bodyMentioned decl.body

mutual

def classScopes : ClassDecl → List (List Mention)
  | ⟨_, _, members, _⟩ =>
    (fieldsMentioned members ++ membersMentioned members) :: memberScopes members

def memberScopes : List Member → List (List Mention)
  | [] => []
  | .field _ :: rest => memberScopes rest
  | .method decl :: rest => decl.mentioned :: memberScopes rest
  | .nested decl :: rest => classScopes decl ++ memberScopes rest

end

def Item.mentioned : Item → List Mention
  | .declaration decl => [.declared decl.name]
  | .statement s => s.mentioned

def Item.scopes : Item → List (List Mention)
  | .declaration decl => classScopes decl
  | .statement _ => []

/-- The names in the loose statements of a program with those of its classes, and the names in each
class and method. -/
def Program.scopes (program : Program) : List (List Mention) :=
  program.items.flatMap Item.mentioned :: program.items.flatMap Item.scopes

namespace Target

structure Word where
  text : String
  binds : Bool
deriving DecidableEq, Repr

namespace Expr

def word : Expr → String
  | name text => text
  | member _ text => text
  | _ => ""

def words (e : Expr) : List Word := e.references.map fun reference => ⟨reference.word, false⟩

def targetWords : Expr → List Word
  | name text => [⟨text, true⟩]
  | e => e.words

end Expr

mutual

def Stmt.words : Stmt → List Word
  | .assign target value => target.targetWords ++ value.words
  | .update target _ value => target.targetWords ++ value.words
  | .expression expr => expr.words
  | .ifElse condition body alternative =>
    condition.words ++ allWords body ++ alternative.words
  | .whileLoop condition body => condition.words ++ allWords body
  | .forRange counter start stop _ body =>
    counter.targetWords ++ start.words ++ stop.words ++ allWords body
  | .tryExcept body handlers none => allWords body ++ handlerWords handlers
  | .tryExcept body handlers (some cleanup) =>
    allWords body ++ handlerWords handlers ++ allWords cleanup
  | .print none _ => []
  | .print (some value) _ => value.words
  | .printFormatted format values => format.words ++ values.flatMap Expr.words
  | .returns none => []
  | .returns (some value) => value.words
  | .breaks | .continues => []
  | .function _ name _ _ => [⟨name, true⟩]
  | .classDef name _ => [⟨name, true⟩]

def allWords : List Stmt → List Word
  | [] => []
  | first :: rest => first.words ++ allWords rest

def Alternative.words : Alternative → List Word
  | .nothing => []
  | .elseIf condition body alternative => condition.words ++ allWords body ++ alternative.words
  | .otherwise body => allWords body

def handlerWords : List (Handler Stmt) → List Word
  | [] => []
  | ⟨_, name, body⟩ :: rest => ⟨name, true⟩ :: allWords body ++ handlerWords rest

end

mutual

/-- The names in each scope that a class or a function opens. -/
def Stmt.scopes : Stmt → List (List Word)
  | .function _ _ params body => [params.map (⟨·, true⟩) ++ allWords body]
  | .classDef _ body => allWords body :: allScopes body
  | _ => []

def allScopes : List Stmt → List (List Word)
  | [] => []
  | first :: rest => first.scopes ++ allScopes rest

end

def Chunk.words : Chunk → List Word
  | .definition stmt => stmt.words
  | .script body => allWords body

def Chunk.scopes : Chunk → List (List Word)
  | .definition stmt => stmt.scopes
  | .script body => allScopes body

/-- The names in the scope of a module, and those in the scope of each class and function. -/
def Module.scopes (m : Module) : List (List Word) :=
  m.chunks.flatMap Chunk.words :: m.chunks.flatMap Chunk.scopes

theorem allWords_append (body rest : List Stmt) :
    allWords (body ++ rest) = allWords body ++ allWords rest := by
  induction body with
  | nil => rfl
  | cons first body ih => rw [List.cons_append, allWords, allWords, ih, List.append_assoc]

theorem allScopes_append (body rest : List Stmt) :
    allScopes (body ++ rest) = allScopes body ++ allScopes rest := by
  induction body with
  | nil => rfl
  | cons first body ih => rw [List.cons_append, allScopes, allScopes, ih, List.append_assoc]

end Target

/-- An emitted name is the source's, and a variable where the source declares it. -/
structure Kept (mention : Mention) (word : Target.Word) : Prop where
  text : word.text = mention.text
  bound : mention.declares = true → word.binds = true

/-- Name by name, emitted code keeps what the source mentions. -/
def KeptAll (mentions : List Mention) (words : List Target.Word) : Prop :=
  List.Forall₂ Kept mentions words

namespace KeptAll

variable {mentions more : List Mention} {words further : List Target.Word}

theorem nil : KeptAll [] [] := List.Forall₂.nil

theorem append (h : KeptAll mentions words) (hmore : KeptAll more further) :
    KeptAll (mentions ++ more) (words ++ further) := List.rel_append h hmore

theorem cons {mention : Mention} {word : Target.Word} (hfirst : Kept mention word)
    (h : KeptAll mentions words) : KeptAll (mention :: mentions) (word :: words) :=
  List.Forall₂.cons hfirst h

/-- Emitted code has the names of the source, and no others. -/
theorem texts (h : KeptAll mentions words) :
    words.map Target.Word.text = mentions.map Mention.text := by
  induction h with
  | nil => rfl
  | cons hfirst _ ih => rw [List.map_cons, List.map_cons, hfirst.text, ih]

end KeptAll

namespace Lowering

open Target (allWords allScopes)

section Expressions

variable {place : Place} {table after : SymbolTable}

theorem word_reference (table : SymbolTable) (name : String) :
    (place.reference table name).word = name := by
  unfold Place.reference
  split <;> rfl

theorem kept_references {names : List String} {references : List Target.Expr}
    (h : references = (place.meanings table names).map Meaning.reference) :
    KeptAll (names.map .used) (references.map fun reference => ⟨reference.word, false⟩) := by
  rw [h, map_reference_meanings, List.map_map]
  clear h
  induction names with
  | nil => exact .nil
  | cons first rest ih => exact .cons ⟨word_reference table first, nofun⟩ ih

theorem value_kept {e : Expr} {out : Target.Expr}
    (h : (value place e).outcome table = (.ok out, after)) : KeptAll e.mentioned out.words :=
  kept_references (value_references h)

theorem initial_kept {decl : VarDecl} {out : Target.Expr}
    (h : (initial place decl).outcome table = (.ok out, after)) :
    KeptAll (mentionedIn decl.init.toList) out.words := kept_references (initial_references h)

theorem loopCondition_kept {e : Option Expr} {out : Target.Expr}
    (h : (loopCondition place e).outcome table = (.ok out, after)) :
    KeptAll (mentionedIn e.toList) out.words := kept_references (loopCondition_references h)

/-- The target of an assignment keeps a name that the source only uses. -/
theorem target_kept (table : SymbolTable) (name : String) :
    KeptAll [.used name] (place.reference table name).targetWords := by
  unfold Place.reference
  split
  · exact .cons ⟨rfl, nofun⟩ .nil
  · exact .cons ⟨rfl, nofun⟩ .nil

/-- A declaration in the innermost scope is a variable of the emitted code. -/
theorem declared_kept (hinside : place.Inside table) (name : String) (symbol : Symbol)
    (declares : Bool) : KeptAll [⟨name, declares⟩]
      (place.reference (table.bring name symbol) name).targetWords := by
  have hholder : place.fieldHolder? (table.bring name symbol) name = none :=
    congrArg Meaning.holder (place.meaning_bring_self hinside name symbol)
  rw [Place.reference, hholder]
  exact .cons ⟨rfl, fun _ => rfl⟩ .nil

end Expressions

/-- Lines that keep the names of a part of the source and define no class or function. -/
structure Keeps (mentions : List Mention) (out : List Target.Stmt) : Prop where
  words : KeptAll mentions (allWords out)
  scopes : allScopes out = []

namespace Keeps

variable {mentions more : List Mention} {out further : List Target.Stmt}

theorem nil : Keeps [] [] := ⟨.nil, rfl⟩

theorem append (h : Keeps mentions out) (hmore : Keeps more further) :
    Keeps (mentions ++ more) (out ++ further) :=
  ⟨Target.allWords_append out further ▸ h.words.append hmore.words,
    by rw [Target.allScopes_append, h.scopes, hmore.scopes]; rfl⟩

theorem single {s : Target.Stmt} (h : KeptAll mentions s.words) (hscopes : s.scopes = []) :
    Keeps mentions [s] :=
  ⟨by simpa [allWords] using h, by rw [allScopes, hscopes]; rfl⟩

end Keeps

section Simple

variable {place : Place} {table after : SymbolTable}

theorem effect_keeps {e : Expr} {out : List Target.Stmt}
    (h : (effect place e).outcome table = (.ok out, after)) : Keeps e.mentioned out := by
  unfold effect at h
  split at h
  · next target e position =>
      obtain ⟨source, hsource, hrest⟩ := (Reads.value place e).exists_of_bind h
      cases hrest
      exact .single ((target_kept table target).append (value_kept hsource)) rfl
  · cases h
  · next target op e position _ =>
      obtain ⟨targetType, -, hrest⟩ := (Reads.typeOf (.name target position)).exists_of_bind h
      obtain ⟨sourceType, -, hrest⟩ := (Reads.typeOf e).exists_of_bind hrest
      obtain ⟨source, hsource, hrest⟩ := (Reads.value place e).exists_of_bind hrest
      cases hrest
      exact .single ((target_kept table target).append (value_kept hsource)) rfl
  · next target op form position =>
      cases h
      exact .single ((target_kept table target).append .nil) rfl
  · obtain ⟨value, hvalue, hpure⟩ := (Reads.value place e).exists_of_bind h
    cases hpure
    exact .single (value_kept hvalue) rfl

theorem effects_keep {list : List Expr} {out : List Target.Stmt}
    (h : (effects place list).outcome table = (.ok out, after)) : Keeps (mentionedIn list) out := by
  induction list generalizing out after with
  | nil =>
      cases h
      exact .nil
  | cons first rest ih =>
      obtain ⟨lines, hlines, hrest⟩ := (Reads.effect place first).exists_of_bind h
      obtain ⟨more, hmore, hpure⟩ := (Reads.effects place rest).exists_of_bind hrest
      cases hpure
      have hall := (effect_keeps hlines).append (ih hmore)
      rwa [Expr.mentioned, mentionedIn, ← List.map_append] at hall

theorem print_keeps {kind : PrintKind} {args : List Expr} {out : List Target.Stmt}
    (h : (print place kind args).outcome table = (.ok out, after)) :
    Keeps (mentionedIn (kind.shown args)) out := by
  have hkept := kept_references (print_references h)
  have hshown (value : Option Target.Expr) (newline : Bool)
      (hkept : KeptAll (mentionedIn (kind.shown args))
        ((Target.allReferences [.print value newline]).map fun r => ⟨r.word, false⟩)) :
      Keeps (mentionedIn (kind.shown args)) [.print value newline] := by
    cases value with
    | none => exact ⟨hkept, rfl⟩
    | some value =>
        rw [Target.allReferences, Target.allReferences, List.append_nil] at hkept
        exact .single hkept rfl
  cases kind with
  | println =>
      obtain ⟨values, -, hpure⟩ := (Reads.values place (args.take 1)).exists_of_bind h
      cases hpure
      exact hshown _ _ hkept
  | print =>
      obtain ⟨values, -, hpure⟩ := (Reads.values place (args.take 1)).exists_of_bind h
      cases hpure
      exact hshown _ _ hkept
  | printf =>
      cases args with
      | nil =>
          cases h
          exact .nil
      | cons first rest =>
          obtain ⟨format, -, hrest⟩ := (Reads.format place first).exists_of_bind h
          obtain ⟨more, -, hpure⟩ := (Reads.values place rest).exists_of_bind hrest
          cases hpure
          rw [Target.allReferences, Target.allReferences, List.append_nil, Target.Stmt.references,
            List.map_append, List.map_flatMap] at hkept
          exact .single hkept rfl

end Simple

def groupWords (labels : List (Target.Expr × List Target.Stmt)) : List Target.Word :=
  labels.flatMap fun label => label.1.words ++ allWords label.2

theorem alternatives_words (default : Option (List Target.Stmt))
    (labels : List (Target.Expr × List Target.Stmt)) :
    (alternatives default labels).words = groupWords labels ++ allWords (default.getD []) := by
  induction labels with
  | nil => cases default <;> rfl
  | cons label rest ih =>
      rw [alternatives, Target.Alternative.words, ih, groupWords, groupWords, List.flatMap_cons,
        List.append_assoc, List.append_assoc, List.append_assoc]

theorem chain_keeps {mentions more : List Mention} {default : Option (List Target.Stmt)}
    {labels : List (Target.Expr × List Target.Stmt)} (hlabels : KeptAll mentions (groupWords labels))
    (hdefault : Keeps more (default.getD [])) : Keeps (mentions ++ more) (chain labels default) := by
  cases labels with
  | nil =>
      cases hlabels
      exact hdefault
  | cons label rest =>
      refine .single ?_ rfl
      rw [Target.Stmt.words, alternatives_words, ← List.append_assoc]
      exact hlabels.append hdefault.words

theorem matching_words (subject label : Target.Expr) (pending : Option Target.Expr) :
    (matching subject pending label).words =
      (pending.map Target.Expr.words).getD [] ++ (subject.words ++ label.words) := by
  unfold Target.Expr.words
  rw [matching_references, List.map_append, List.map_append]
  cases pending <;> rfl

theorem tryExcept_words (body : List Target.Stmt) (handlers : List (Target.Handler Target.Stmt))
    (cleanup : Option (List Target.Stmt)) : (Target.Stmt.tryExcept body handlers cleanup).words =
      allWords body ++ Target.handlerWords handlers ++ allWords (cleanup.getD []) := by
  cases cleanup with
  | none => exact (List.append_nil _).symm
  | some lines => rfl

theorem boundBehind_kept {place : Place} {table after : SymbolTable} {loop : RangeLoop}
    {bound : Target.Expr} (h : (value place loop.stop).outcome table = (.ok bound, after)) :
    KeptAll loop.stop.mentioned
      (if loop.inclusive then boundBehind loop bound else bound).words := by
  split
  · exact kept_references ((boundBehind_references h).trans (value_references h))
  · exact value_kept h

def elseMentioned (branch : Option Stmt) : List Mention := branch.elim [] Stmt.mentioned

def defaultMentioned (default : Option (List Stmt)) : List Mention := default.elim [] caseMentioned

def cleanupMentioned (cleanup : Option (List Stmt)) : List Mention := cleanup.elim [] bodyMentioned

theorem mentioned_ifElse (e : Expr) (thenBranch : Stmt) (elseBranch : Option Stmt) :
    (Stmt.ifElse e thenBranch elseBranch).mentioned =
      e.mentioned ++ thenBranch.mentioned ++ elseMentioned elseBranch := by
  cases elseBranch with
  | none => exact (List.append_nil _).symm
  | some branch => rfl

theorem mentioned_switch (scrutinee : Expr) (cases : List (SwitchCase Stmt))
    (default : Option (List Stmt)) : (Stmt.switch scrutinee cases default).mentioned =
      labelsMentioned scrutinee.mentioned [] cases ++ defaultMentioned default := by
  cases default with
  | none => exact (List.append_nil _).symm
  | some body => rfl

theorem mentioned_tryCatch (body : List Stmt) (catches : List (CatchClause Stmt))
    (cleanup : Option (List Stmt)) : (Stmt.tryCatch body catches cleanup).mentioned =
      bodyMentioned body ++ catchesMentioned catches ++ cleanupMentioned cleanup := by
  cases cleanup with
  | none => exact (List.append_nil _).symm
  | some lines => rfl

mutual

theorem stmt_keeps (place : Place) (shared : Bool) : (s : Stmt) →
    ∀ {table after : SymbolTable} {out : List Target.Stmt}, place.Inside table →
      (stmt place shared s).outcome table = (.ok out, after) → Keeps s.mentioned out
  | .declare decl, table, after, out, hinside, h => by
      obtain ⟨source, hsource, rfl, rfl⟩ := exists_of_declare h
      exact .single ((declared_kept hinside decl.name _ true).append (initial_kept hsource)) rfl
  | .expression e, table, after, out, hinside, h => by
      rw [stmt] at h
      exact effect_keeps h
  | .block body, table, after, out, hinside, h => by
      cases shared with
      | true =>
          rw [stmt, if_pos rfl] at h
          exact stmts_keep place body hinside h
      | false =>
          obtain ⟨inner, hinner, rfl⟩ := exists_of_block h
          exact stmts_keep place body (SymbolTable.inside_enter hinside) hinner
  | .ifElse e thenBranch elseBranch, table, after, out, hinside, h => by
      obtain ⟨condition, body, inner, rest, hcondition, hbody, hrest, rfl⟩ := exists_of_ifElse h
      have hthen := stmt_keeps place true thenBranch (SymbolTable.inside_enter hinside) hbody
      have hleave := (Refers.leave (stmt_refers place true thenBranch hbody)).scope
      have helse := else_keeps place elseBranch (hleave.inside hinside) hrest
      rw [mentioned_ifElse]
      exact .single (((value_kept hcondition).append hthen.words).append helse) rfl
  | .whileLoop e body, table, after, out, hinside, h => by
      obtain ⟨condition, lines, inner, hcondition, hbody, rfl, rfl⟩ := exists_of_whileLoop h
      have hlines := stmt_keeps place true body (SymbolTable.inside_enter hinside) hbody
      exact .single ((value_kept hcondition).append hlines.words) rfl
  | .doWhile body e, table, after, out, hinside, h => by
      obtain ⟨lines, condition, inner, hbody, hcondition, rfl, rfl⟩ := exists_of_doWhile h
      have hlines := stmt_keeps place true body (SymbolTable.inside_enter hinside) hbody
      have htest : Keeps e.mentioned [exitUnless condition] :=
        .single (by simpa [exitUnless, Target.Stmt.words, allWords, Target.Alternative.words,
          Target.Expr.words, Target.Expr.references] using value_kept hcondition) rfl
      exact .single (hlines.append htest).words rfl
  | .forLoop none e update body, table, after, out, hinside, h => by
      obtain ⟨condition, lines, last, inner, hcondition, hbody, hlast, rfl, rfl⟩ :=
        exists_of_bareFor h
      have hlines := stmt_keeps place true body
        (SymbolTable.inside_enter (SymbolTable.inside_enter hinside)) hbody
      have hround := hlines.append (effects_keep hlast)
      exact .single ((loopCondition_kept hcondition).append hround.words) rfl
  | .forLoop (some init) e update body, table, after, out, hinside, h => by
      have hentered := SymbolTable.inside_enter hinside
      rw [Stmt.mentioned]
      cases hdetect : RangeLoop.detect? init e update body with
      | none =>
          obtain ⟨first, begun, condition, lines, last, inner, hfirst, hcondition, hbody, hlast,
            rfl, rfl⟩ := exists_of_for hdetect h
          have hbegun := (stmt_refers place false init hfirst).scope
          have hinit := stmt_keeps place false init hentered hfirst
          have hlines := stmt_keeps place true body
            (SymbolTable.inside_enter (hbegun.inside hentered)) hbody
          have hround := hlines.append (effects_keep hlast)
          exact hinit.append
            (.single ((loopCondition_kept hcondition).append hround.words) rfl)
      | some loop =>
          obtain ⟨start, bound, lines, inner, hbounds, hbody, rfl, rfl⟩ := exists_of_range hdetect h
          obtain ⟨_, stop, hstart, hstop, -, hpair⟩ := exists_of_rangeBounds hbounds
          obtain ⟨rfl, rfl⟩ := Prod.mk.inj hpair
          have hcounted : table.enter.Extends [loop.counter] (counted loop table.enter) :=
            .bring ..
          have hlines := stmt_keeps place true body
            (SymbolTable.inside_enter (hcounted.inside hentered)) hbody
          have hcounter := declared_kept hentered loop.counter
            (declared loop.type loop.position) (init.declared.contains loop.counter)
          exact .single ((((hcounter.append (value_kept hstart)).append
            (boundBehind_kept hstop))).append hlines.words) rfl
  | .switch scrutinee cases default, table, after, out, hinside, h => by
      obtain ⟨subject, labels, between, rest, hsubject, hlabels, hdefault, rfl⟩ :=
        exists_of_switch h
      have hscope := (groups_refers place cases none [] (value_references hsubject) rfl
        hlabels).scope
      have hgroups := groups_keep place cases none [] hinside (value_kept hsubject) .nil hlabels
      have hrest := default_keeps place default (hscope.inside hinside) hdefault
      rw [mentioned_switch]
      exact chain_keeps hgroups hrest
  | .tryCatch body catches cleanup, table, after, out, hinside, h => by
      obtain ⟨first, inner, caught, between, last, hfirst, hcaught, hlast, rfl⟩ :=
        exists_of_tryCatch h
      have hleave := (Refers.leave (stmts_refers place body hfirst)).scope
      have hbetween := (handlers_refers place catches hcaught).scope
      have hbody := stmts_keep place body (SymbolTable.inside_enter hinside) hfirst
      have hhandlers := handlers_keep place catches (hleave.inside hinside) hcaught
      have hcleanup := cleanup_keeps place cleanup
        (hbetween.inside (hleave.inside hinside)) hlast
      rw [mentioned_tryCatch]
      refine .single ?_ rfl
      rw [tryExcept_words]
      exact (hbody.words.append hhandlers).append hcleanup.words
  | .print kind args position, table, after, out, hinside, h => by
      rw [stmt] at h
      exact print_keeps h
  | .returns none position, table, after, out, hinside, h => by
      rw [stmt] at h
      cases h
      exact .single .nil rfl
  | .returns (some e) position, table, after, out, hinside, h => by
      rw [stmt] at h
      obtain ⟨value, hvalue, hpure⟩ := (Reads.value place e).exists_of_bind h
      cases hpure
      rw [Stmt.mentioned, Option.toList_some, mentionedIn, namesIn, List.flatMap_singleton]
      exact .single (value_kept hvalue) rfl
  | .breaks, table, after, out, hinside, h | .continues, table, after, out, hinside, h => by
      rw [stmt] at h
      cases h
      exact .single .nil rfl
  | .empty, table, after, out, hinside, h => by
      rw [stmt] at h
      cases h
      exact .nil

theorem stmts_keep (place : Place) : (body : List Stmt) →
    ∀ {table after : SymbolTable} {out : List Target.Stmt}, place.Inside table →
      (stmts place body).outcome table = (.ok out, after) → Keeps (bodyMentioned body) out
  | [], table, after, out, hinside, h => by
      rw [stmts] at h
      cases h
      exact .nil
  | first :: rest, table, after, out, hinside, h => by
      obtain ⟨lines, more, between, hlines, hmore, rfl⟩ := exists_of_cons h
      have hbetween := (stmt_refers place false first hlines).scope
      exact (stmt_keeps place false first hinside hlines).append
        (stmts_keep place rest (hbetween.inside hinside) hmore)

theorem else_keeps (place : Place) : (branch : Option Stmt) →
    ∀ {table after : SymbolTable} {out : Target.Alternative}, place.Inside table →
      (alternative place branch).outcome table = (.ok out, after) →
        KeptAll (elseMentioned branch) out.words
  | none, table, after, out, hinside, h => by
      rw [alternative] at h
      cases h
      exact .nil
  | some branch, table, after, out, hinside, h => by
      have hbranch {lines : List Target.Stmt} {inner : SymbolTable}
          (hbody : (stmt place true branch).outcome table.enter = (.ok lines, inner)) :=
        (stmt_keeps place true branch (SymbolTable.inside_enter hinside) hbody).words
      cases branch with
      | ifElse e thenBranch elseBranch =>
          obtain ⟨condition, body, rest, hstmt, rfl⟩ := exists_of_elseIf h
          obtain ⟨_, _, inner, _, hcondition, hbody, hrest, hout⟩ := exists_of_ifElse hstmt
          cases hout
          have hthen := stmt_keeps place true thenBranch (SymbolTable.inside_enter hinside) hbody
          have hleave := (Refers.leave (stmt_refers place true thenBranch hbody)).scope
          have helse := else_keeps place elseBranch (hleave.inside hinside) hrest
          rw [elseMentioned, Option.elim_some, mentioned_ifElse]
          exact ((value_kept hcondition).append hthen.words).append helse
      | _ =>
          obtain ⟨body, inner, hbody, rfl, rfl⟩ := exists_of_otherwise (by nofun) h
          exact hbranch hbody

theorem case_keeps (place : Place) : (body : List Stmt) →
    ∀ {table after : SymbolTable} {out : List Target.Stmt}, place.Inside table →
      (caseBody place body).outcome table = (.ok out, after) → Keeps (caseMentioned body) out
  | [], table, after, out, hinside, h => by
      rw [caseBody] at h
      cases h
      exact .nil
  | first :: rest, table, after, out, hinside, h => by
      have hfirst {lines : List Target.Stmt} {between : SymbolTable}
          (hlines : (stmt place false first).outcome table = (.ok lines, between)) :=
        stmt_keeps place false first hinside hlines
      have hrest {more : List Target.Stmt} {between : SymbolTable}
          (hbetween : place.Inside between)
          (hmore : (caseBody place rest).outcome between = (.ok more, after)) :=
        case_keeps place rest hbetween hmore
      by_cases hbreak : first = .breaks
      · rw [hbreak, caseBody] at h
        cases h
        rw [hbreak, caseMentioned]
        exact .nil
      · obtain ⟨lines, more, between, hlines, hmore, rfl⟩ := exists_of_label hbreak h
        have hbetween := (stmt_refers place false first hlines).scope
        rw [caseMentioned]
        · exact (hfirst hlines).append (hrest (hbetween.inside hinside) hmore)
        · exact hbreak

theorem groups_keep (place : Place) : (cases : List (SwitchCase Stmt)) →
    ∀ (pending : Option Target.Expr) (tests : List Mention) {subject : Target.Expr}
      {subjects : List Mention} {table after : SymbolTable}
      {out : List (Target.Expr × List Target.Stmt)}, place.Inside table →
      KeptAll subjects subject.words →
      KeptAll tests ((pending.map Target.Expr.words).getD []) →
      (groups place subject pending cases).outcome table = (.ok out, after) →
        KeptAll (labelsMentioned subjects tests cases) (groupWords out)
  | [], pending, tests, subject, subjects, table, after, out, hinside, hsubject, hpending, h => by
      rw [groups] at h
      cases h
      exact .nil
  | ⟨label, []⟩ :: rest, pending, tests, subject, subjects, table, after, out, hinside, hsubject,
      hpending, h => by
      obtain ⟨test, htest, hrest⟩ := exists_of_emptyLabel h
      rw [labelsMentioned]
      refine groups_keep place rest _ _ hinside hsubject ?_ hrest
      rw [Option.map_some, Option.getD_some, matching_words]
      exact hpending.append (hsubject.append (value_kept htest))
  | ⟨label, first :: body⟩ :: rest, pending, tests, subject, subjects, table, after, out, hinside,
      hsubject, hpending, h => by
      obtain ⟨test, lines, inner, more, htest, hlines, hmore, rfl⟩ := exists_of_group h
      have hleave := (Refers.leave (case_refers place (first :: body) hlines)).scope
      have hbody := case_keeps place (first :: body) (SymbolTable.inside_enter hinside) hlines
      have hrest := groups_keep place rest none [] (hleave.inside hinside) hsubject .nil hmore
      have htests := hpending.append (hsubject.append (value_kept htest))
      rw [← matching_words] at htests
      rw [labelsMentioned]
      exact (htests.append hbody.words).append hrest

theorem default_keeps (place : Place) : (default : Option (List Stmt)) →
    ∀ {table after : SymbolTable} {out : Option (List Target.Stmt)}, place.Inside table →
      (defaultBody place default).outcome table = (.ok out, after) →
        Keeps (defaultMentioned default) (out.getD [])
  | none, table, after, out, hinside, h => by
      rw [defaultBody] at h
      cases h
      exact .nil
  | some body, table, after, out, hinside, h => by
      obtain ⟨lines, inner, hlines, rfl, rfl⟩ := exists_of_default h
      exact case_keeps place body (SymbolTable.inside_enter hinside) hlines

theorem handlers_keep (place : Place) : (catches : List (CatchClause Stmt)) →
    ∀ {table after : SymbolTable} {out : List (Target.Handler Target.Stmt)}, place.Inside table →
      (handlers place catches).outcome table = (.ok out, after) →
        KeptAll (catchesMentioned catches) (Target.handlerWords out)
  | [], table, after, out, hinside, h => by
      rw [handlers] at h
      cases h
      exact .nil
  | ⟨exception, name, body, position⟩ :: rest, table, after, out, hinside, h => by
      obtain ⟨lines, inner, more, hlines, hmore, rfl⟩ := exists_of_handler h
      have hcaught : table.enter.Extends [name]
          (table.enter.bring name (declared (.ofTypeName exception) position)) := .bring ..
      have hleave := (hcaught.trans (stmts_refers place body hlines).scope).leave
      have hbody := stmts_keep place body
        (hcaught.inside (SymbolTable.inside_enter hinside)) hlines
      have hkept : table.Extends [] _ := .of_bare hleave
      have hrest := handlers_keep place rest (hkept.inside hinside) hmore
      exact .cons ⟨rfl, fun _ => rfl⟩ (hbody.words.append hrest)

theorem cleanup_keeps (place : Place) : (cleanup : Option (List Stmt)) →
    ∀ {table after : SymbolTable} {out : Option (List Target.Stmt)}, place.Inside table →
      (cleanupBody place cleanup).outcome table = (.ok out, after) →
        Keeps (cleanupMentioned cleanup) (out.getD [])
  | none, table, after, out, hinside, h => by
      rw [cleanupBody] at h
      cases h
      exact .nil
  | some body, table, after, out, hinside, h => by
      obtain ⟨lines, inner, hlines, rfl, rfl⟩ := exists_of_cleanup h
      exact stmts_keep place body (SymbolTable.inside_enter hinside) hlines

end

end Lowering

end MiniJava
