import MiniJava.Proofs.Evaluation.Execution
import MiniJava.Proofs.Grammar.LeavesKept
import MiniJava.Proofs.Lowering.Blocks
import MiniJava.Proofs.Lowering.Preservation

/-!
# Core programs keep their behavior

A core program that passes its checks is lowered to a text that Python reads in one way, and what
Python then does is what the program does: it prints the same lines, and it comes to an end if and
only if the program does. Some things that the grammar lets pass do not survive: Python reads no
string with a raw carriage return or null character and no assignment to `__debug__`, a declaration
that is itself a branch or the body of a loop is in scope behind it, where it need not have been
reached, and a range that ends at the largest 64-bit integer overflows.
-/

namespace MiniJava

open Lexeme Text

namespace Lowering

/-- The chunks of loose statements are the lines of the statements one behind another. -/
theorem exists_chunks : (list : List Stmt) → ∀ {out : List Target.Stmt}
    {table after : SymbolTable}, (stmts .outside list).outcome table = (.ok out, after) →
    ∃ chunks, (items (list.map .statement)).outcome table = (.ok chunks, after) ∧
      chunks.flatMap Target.Chunk.nodes = Target.allNodes out
  | [], out, table, after, h => by
      rw [stmts] at h
      cases h
      exact ⟨[], rfl, by rw [Target.allNodes]; rfl⟩
  | first :: rest, out, table, after, h => by
      rw [stmts] at h
      obtain ⟨front, back, between, hfirst, hrest, rfl⟩ := exists_of_pair h
      obtain ⟨chunks, hchunks, hnodes⟩ := exists_chunks rest hrest
      have hitem : (item (.statement first)).outcome table = (.ok (.script front), between) := by
        rw [item, outcome_bind_of_ok hfirst]
        rfl
      refine ⟨.script front :: chunks, ?_, ?_⟩
      · rw [List.map_cons, items, outcome_bind_of_ok hitem, outcome_bind_of_ok hchunks]
        rfl
      · rw [List.flatMap_cons, hnodes, Target.allNodes_append]
        rfl

end Lowering

theorem bodyChecks_eq_flatMap (expected : Option ValueType) (list : List Stmt) :
    bodyChecks expected list = list.flatMap (Stmt.checks expected) := by
  induction list with
  | nil => rfl
  | cons first rest ih => rw [bodyChecks, List.flatMap_cons, ih]

theorem allFailures_eq_flatMap (list : List Stmt) :
    allFailures list = list.flatMap Stmt.failures := by
  induction list with
  | nil => rfl
  | cons first rest ih => rw [allFailures, List.flatMap_cons, ih]

theorem allLeaves_eq_flatMap (list : List Stmt) : allLeaves list = list.flatMap Stmt.leaves := by
  induction list with
  | nil => rfl
  | cons first rest ih => rw [allLeaves, List.flatMap_cons, ih]

namespace Program

open Lowering

variable {program : Program}

theorem items_of_loose (h : program.classes = []) :
    program.items = program.statements.map .statement := by
  obtain ⟨items⟩ := program
  rw [statements]
  induction items with
  | nil => rfl
  | cons first rest ih =>
      cases first with
      | declaration decl => cases h
      | statement s => exact congrArg (Item.statement s :: ·) (ih h)

theorem checks_of_loose (h : program.classes = []) :
    program.checks = bodyChecks none program.statements := by
  rw [checks, items_of_loose h, List.flatMap_map, bodyChecks_eq_flatMap]
  rfl

theorem leaves_of_loose (h : program.classes = []) :
    program.leaves = allLeaves program.statements := by
  rw [leaves, items_of_loose h, List.flatMap_map, allLeaves_eq_flatMap]
  rfl

theorem failures_of_loose (h : program.classes = []) :
    program.failures = allFailures program.statements := by
  rw [failures, items_of_loose h, List.flatMap_map, allFailures_eq_flatMap]
  rfl

/-- Loose statements that can be lowered are a module of their lines. -/
theorem exists_module_of_loose (h : program.classes = []) {out : List Target.Stmt}
    {after : SymbolTable}
    (hout : (stmts .outside program.statements).outcome .empty = (.ok out, after)) :
    ∃ m, program.toModule = .ok m ∧ m.nodes = Target.allNodes out := by
  obtain ⟨chunks, hchunks, hnodes⟩ := exists_chunks program.statements hout
  rw [← items_of_loose h] at hchunks
  refine ⟨⟨chunks, none⟩, ?_, ?_⟩
  · rw [toModule, hchunks, entryClass?, h]
    rfl
  · rw [Target.Module.nodes, hnodes, Target.entryNodes, List.append_nil]

end Program

/-- No string holds a raw carriage return or a null character. -/
def Unbroken (tokens : List Token) : Prop :=
  ∀ token ∈ tokens, token.kind = .stringLiteral → Python.IsPlain token.lexeme.toList

instance (text : List Char) : Decidable (Python.IsPlain text) := List.decidableBAll _ text

instance (tokens : List Token) : Decidable (Unbroken tokens) :=
  inferInstanceAs (Decidable (∀ token ∈ tokens, _))

/-- What a token stands for means in Python what it means in the source. -/
theorem Token.IsLexical.portable {token : Token} (h : token.IsLexical)
    (hunbroken : token.kind = .stringLiteral → Python.IsPlain token.lexeme.toList) :
    PortableLeaf (token.kind, token.lexeme) := by
  refine ⟨fun hkind => Grammar.isIdentifier_of_isLexical h hkind, fun text hleaf => ?_⟩
  obtain ⟨hkind, hlexeme⟩ := Prod.mk.inj hleaf
  obtain ⟨body, hbody, hquotable⟩ := h.exists_string hkind
  have heq : text = body := by
    have htexts := congrArg Grammar.unquote (hlexeme.symm.trans hbody)
    rwa [Grammar.unquote_string, Grammar.unquote_string] at htexts
  have hplain := hunbroken hkind
  rw [hlexeme, String.toList_append, String.toList_append] at hplain
  refine ⟨heq ▸ hquotable, fun c hc => hplain c ?_⟩
  exact List.mem_append_left _ (List.mem_append_right _ hc)

namespace Program

open Lowering Grammar

variable {source : String} {program : Program}

theorem leaves_portable (hsource : ofSource source = .ok program)
    (hunbroken : Unbroken (tokenize source)) :
    ∀ leaf ∈ program.leaves, PortableLeaf leaf := by
  intro leaf hleaf
  have hkeeps := (spellsItems_of_ofTokens (isTable_tokenize source) hsource).keeps
  obtain ⟨token, htoken, hself⟩ := List.mem_filterMap.mp (hkeeps.within.subset hleaf)
  obtain ⟨-, hself⟩ := Option.ite_none_right_eq_some.mp hself
  cases hself
  exact (Token.isLexical_of_mem_tokenize htoken).portable (hunbroken token htoken)

/-- The types of a core program are those of its declarations. -/
theorem IsCore.types_eq_some_iff (h : program.IsCore) {name : String} {type : ValueType} :
    program.types name = some type ↔ (name, type) ∈ program.declarations := by
  rw [Program.types, List.lookup_eq_some_iff]
  constructor
  · rintro ⟨front, back, heq, -⟩
    rw [heq]
    exact List.mem_append_right _ List.mem_cons_self
  · intro hmem
    obtain ⟨front, back, heq⟩ := List.append_of_mem hmem
    refine ⟨front, back, heq, fun declaration hfront => bne_iff_ne.mpr fun hname => ?_⟩
    have hdistinct := h.distinct
    rw [heq, List.map_append, List.map_cons] at hdistinct
    exact (List.nodup_append.mp hdistinct).2.2 _ (List.mem_map_of_mem hfront) _
      List.mem_cons_self hname.symm

theorem IsCore.walk (h : program.IsCore) (hclean : program.diagnostics = [])
    (hassigned : "__debug__" ∉ program.declarations.map Prod.fst) :
    CoreWalk program.types .empty (bodyChecks none program.statements) := by
  rw [← checks_of_loose h.loose]
  refine ⟨fun name type htype => h.types _ (h.types_eq_some_iff.mp htype),
    (clean_iff program).mp hclean, (Scoped.empty _).fits,
    fun declaration hmem => ⟨h.types_eq_some_iff.mpr hmem, h.names declaration hmem,
      fun heq => hassigned (heq ▸ List.mem_map_of_mem hmem)⟩, ?_⟩
  exact (List.append_nil _).symm ▸ h.distinct

/-- The execution of the loose statements of a program. -/
def execution (program : Program) : Execution Store where
  run rounds := Stmt.runAll rounds program.statements []
  upto hle := Stmt.upto_runAll hle program.statements []

end Program

/-- The execution of Python statements. -/
def Python.execution (code : List Code) : Execution Vars where
  run rounds := runAll rounds code .empty
  upto hle := upto_runAll hle code .empty

/-- A text of one line that is no statement. -/
theorem Python.not_readsAs_line {text : String} (line : List Char)
    (hrows : rowsOf text = [⟨0, line⟩]) (hopens : Row.opens ⟨0, line⟩ = false)
    (hline : line? line = none) (code : List Code) : ¬ ReadsAs text code := by
  rintro ⟨nodes, hblock, hcode⟩
  rw [hrows] at hblock
  obtain rfl := hblock.unique (.line hopens .nil)
  simp [codeOf, partsOf, hline] at hcode

/-- A text whose blocks are of code that comes to an end. -/
theorem Python.exists_halting (rounds : Nat) (lines : List String) {text : String}
    {nodes : List Node} (hblock : Block 0 (rowsOf text) nodes)
    (h : (codeOf nodes).any (fun code => (execution code).haltsWithin rounds lines) = true) :
    ∃ code, ReadsAs text code ∧ (execution code).Halts lines := by
  obtain ⟨code, hcode, hhalts⟩ := (Option.any_eq_true _ _).mp h
  exact ⟨code, ⟨nodes, hblock, hcode⟩, Execution.halts_of_within hhalts⟩

namespace Program

open Lowering

theorem isCore_iff (program : Program) : program.IsCore ↔ program.classes.isEmpty = true ∧
    (∀ declaration ∈ program.declarations, declaration.2 = .int ∨ declaration.2 = .string) ∧
    (program.declarations.map Prod.fst).Nodup ∧
    (∀ declaration ∈ program.declarations, declaration.1 ∉ Python.reserved) ∧
    Stmt.allCore program.types program.statements = true := by
  rw [List.isEmpty_iff]
  constructor
  · rintro ⟨hloose, htypes, hdistinct, hnames, hstatements⟩
    exact ⟨hloose, htypes, hdistinct, hnames, hstatements⟩
  · rintro ⟨hloose, htypes, hdistinct, hnames, hstatements⟩
    exact ⟨hloose, htypes, hdistinct, hnames, hstatements⟩

instance (program : Program) : Decidable program.IsCore :=
  decidable_of_iff' _ program.isCore_iff

variable {source : String} {program : Program}

/-- A core program that passes its checks, and in which no range overflows, is lowered to a text
that Python reads in one way, and reads as statements that do what the program does. -/
theorem core_behavior_kept (hsource : ofSource source = .ok program)
    (hclean : program.diagnostics = []) (hcore : program.IsCore)
    (hbraced : Stmt.allBraced program.statements = true) (hfits : .overflow ∉ program.failures)
    (hassigned : "__debug__" ∉ program.declarations.map Prod.fst)
    (hunbroken : Unbroken (tokenize source)) :
    ∃ text code, program.toPython = .ok text ∧ Python.ReadsAs text code ∧
      (∀ other, Python.ReadsAs text other → other = code) ∧
      program.execution.Equivalent (Python.execution code) := by
  have hleaves := leaves_portable hsource hunbroken
  rw [leaves_of_loose hcore.loose] at hleaves
  rw [failures_of_loose hcore.loose] at hfits
  have hsound := (hcore.walk hclean hassigned).body program.statements hcore.statements hbraced hleaves
  obtain ⟨out, after, code, hout, -, hreads, hruns⟩ :=
    follows_stmts program.statements hsound hfits (Scoped.empty program.types)
  obtain ⟨m, hmodule, hnodes⟩ := exists_module_of_loose hcore.loose hout
  have hblock := Target.Module.block_toText (neat_toModule hsource hmodule)
  have hread : Python.ReadsAs m.toText code := ⟨m.nodes, hblock, hnodes ▸ hreads.codeOf_eq⟩
  have htext : program.toPython = .ok m.toText := by
    rw [toPython, hmodule]
    rfl
  have halike (rounds : Nat) := hruns rounds [] .empty (.empty program.types)
  exact ⟨m.toText, code, htext, hread, fun other hother => hother.unique hread, .of_alike halike⟩

/-- A loop over a range, with an `if` and another loop in it. -/
theorem core_behavior_kept_nested :
    let source := "int n = 0; for (int i = 0; i < 3; i++) \x7b if (i == 1) n += i * 5; " ++
      "else \x7b int k = i; while (k > 0) \x7b n -= k; k--; \x7d \x7d " ++
      "System.out.println(\"n \" + n); \x7d"
    ∃ program text code, ofSource source = .ok program ∧ program.diagnostics = [] ∧
      program.IsCore ∧ program.toPython = .ok text ∧ Python.ReadsAs text code ∧
      program.execution.Halts ["n 0", "n 5", "n 2"] ∧
      (Python.execution code).Halts ["n 0", "n 5", "n 2"] := by
  intro source
  obtain ⟨program, hsource, hclean, hcore, hbraced, hfits, hassigned, hhalts⟩ := exists_program source
    (fun program => program.diagnostics = [] ∧ program.IsCore ∧
      Stmt.allBraced program.statements = true ∧ .overflow ∉ program.failures ∧
      "__debug__" ∉ program.declarations.map Prod.fst ∧
      (program.execution.run 3).printed = ["n 0", "n 5", "n 2"] ∧
      (program.execution.run 3).ending.isDone = true) (by decide +kernel)
  obtain ⟨text, code, htext, hread, -, hequivalent⟩ :=
    core_behavior_kept hsource hclean hcore hbraced hfits hassigned (by decide +kernel)
  have hlines : program.execution.Halts ["n 0", "n 5", "n 2"] := ⟨3, hhalts⟩
  exact ⟨program, text, code, hsource, hclean, hcore, htext, hread, hlines,
    (hequivalent.halts _).mp hlines⟩

/-- A core program whose text is one line that is no statement. -/
theorem exists_unread {source : String} {printed : List String} (line : List Char)
    (hprogram : (ofSource source).toOption.any (fun program => decide (
      program.diagnostics = [] ∧ program.IsCore ∧ program.execution.haltsWithin 0 printed = true ∧
        program.toPython = .ok (String.ofList (line ++ ['\n'])))) = true)
    (hrows : Python.rowsOf (String.ofList (line ++ ['\n'])) = [⟨0, line⟩])
    (hopens : Python.Row.opens ⟨0, line⟩ = false) (hline : Python.line? line = none) :
    ∃ program text, ofSource source = .ok program ∧ program.diagnostics = [] ∧ program.IsCore ∧
      program.execution.Halts printed ∧ program.toPython = .ok text ∧
      ∀ code, ¬ Python.ReadsAs text code := by
  obtain ⟨program, hsource, hclean, hcore, hhalts, htext⟩ := exists_program source _ hprogram
  exact ⟨program, _, hsource, hclean, hcore, Execution.halts_of_within hhalts, htext,
    Python.not_readsAs_line line hrows hopens hline⟩

/-- Python reads neither a string with a raw carriage return or null character nor an assignment to
`__debug__`. A declaration that is a branch is in scope behind the `if` where it has not been
reached, and Python finds there what an earlier round has left. No 64-bit integer is behind the
largest one, where a range that reaches it ends. -/
theorem core_behavior_lost :
    (∀ test ∈ [("System.out.println(\"a\rb\");", ["a\rb"]),
        ("System.out.println(\"a\x00b\");", ["a\x00b"]), ("int __debug__ = 1;", [])],
      ∃ program text, ofSource test.1 = .ok program ∧ program.diagnostics = [] ∧ program.IsCore ∧
        program.execution.Halts test.2 ∧ program.toPython = .ok text ∧
        ∀ code, ¬ Python.ReadsAs text code) ∧
    (∃ program text code, ofSource ("for (int i = 0; i < 2; i++) \x7b " ++
        "if (i == 0) int y = 5; System.out.println(y); \x7d") = .ok program ∧
      program.diagnostics = [] ∧ program.IsCore ∧ program.execution.Fails ∧
      program.toPython = .ok text ∧ Python.ReadsAs text code ∧
      (Python.execution code).Halts ["5", "5"]) ∧
    ∃ program, ofSource ("for (int i = 9223372036854775806; i <= 9223372036854775807; i++) " ++
        "\x7b System.out.println(i); \x7d") = .ok program ∧
      program.diagnostics = [] ∧ program.IsCore ∧
      program.execution.Halts ["9223372036854775806", "9223372036854775807"] ∧
      program.toPython = .error .overflow := by
  refine ⟨?_, ?_, ?_⟩
  · exact List.forall_mem_cons.mpr ⟨exists_unread "print(\"a\rb\")".toList (by decide +kernel)
        (by decide +kernel) (by decide +kernel) (by decide +kernel),
      List.forall_mem_cons.mpr ⟨exists_unread "print(\"a\x00b\")".toList (by decide +kernel)
        (by decide +kernel) (by decide +kernel) (by decide +kernel),
      List.forall_mem_singleton.mpr (exists_unread "__debug__ = 1".toList (by decide +kernel)
        (by decide +kernel) (by decide +kernel) (by decide +kernel))⟩⟩
  · let text := "for i in range(0, 2):\n    if i == 0:\n        y = 5\n    print(y)\n"
    obtain ⟨program, hsource, hclean, hcore, hfails, htext⟩ :=
      exists_program ("for (int i = 0; i < 2; i++) \x7b " ++
        "if (i == 0) int y = 5; System.out.println(y); \x7d") (fun program =>
          program.diagnostics = [] ∧ program.IsCore ∧
          (program.execution.run 2).ending = .failed ∧ program.toPython = .ok text)
        (by decide +kernel)
    have hrows : Python.rowsOf text = [⟨0, "for i in range(0, 2):".toList⟩,
        ⟨4, "if i == 0:".toList⟩, ⟨8, "y = 5".toList⟩, ⟨4, "print(y)".toList⟩] := by
      decide +kernel
    have hbranch : Python.Block 4 [⟨4, "if i == 0:".toList⟩, ⟨8, "y = 5".toList⟩,
        ⟨4, "print(y)".toList⟩] [.clause "if i == 0:".toList [.line "y = 5".toList],
        .line "print(y)".toList] :=
      .clause (by decide) (.line (by decide) .nil) (List.cons_ne_nil _ _)
        (.line (by decide) .nil)
    have hblock : Python.Block 0 (Python.rowsOf text) [.clause "for i in range(0, 2):".toList
        [.clause "if i == 0:".toList [.line "y = 5".toList], .line "print(y)".toList]] :=
      hrows ▸ .clause (by decide) hbranch (List.cons_ne_nil _ _) .nil
    have hcode : (Python.codeOf [.clause "for i in range(0, 2):".toList
        [.clause "if i == 0:".toList [.line "y = 5".toList], .line "print(y)".toList]]).any
          (fun code => (Python.execution code).haltsWithin 2 ["5", "5"]) = true := by
      simp only [Python.codeOf, Python.partsOf]
      decide +kernel
    obtain ⟨code, hread, hruns⟩ := Python.exists_halting 2 ["5", "5"] hblock hcode
    exact ⟨program, text, code, hsource, hclean, hcore, ⟨2, hfails⟩, htext, hread, hruns⟩
  · obtain ⟨program, hsource, hclean, hcore, hhalts, hoverflow⟩ := exists_program
      ("for (int i = 9223372036854775806; i <= 9223372036854775807; i++) " ++
        "\x7b System.out.println(i); \x7d") (fun program =>
          program.diagnostics = [] ∧ program.IsCore ∧ program.execution.haltsWithin 2
            ["9223372036854775806", "9223372036854775807"] = true ∧
          program.toPython = .error .overflow) (by decide +kernel)
    exact ⟨program, hsource, hclean, hcore, Execution.halts_of_within hhalts, hoverflow⟩

end Program

end MiniJava
