import MiniJava.Lowering.Program
import MiniJava.Proofs.Lowering.Neat
import MiniJava.Proofs.Target.Blocks

/-!
# Emitted code is well blocked

What a program is lowered to is neat, so the lines of its Python form suites: none is empty, and
every clause goes on with the statement before it.
-/

namespace MiniJava

open Python Target

namespace Lowering

open Grammar (SpellsMethod SpellsClass SpellsItems SpellsParam ClassPhrase)

theorem method_neat {place : Place} (hplace : NeatPlace place) {decl : Method}
    {tokens : List Token} (h : SpellsMethod decl tokens) :
    Yields (method place decl) Stmt.Neat := by
  cases h with
  | @mk name _ _ _ _ params _ _ _ hname _ hparams _ hblock =>
      have hbody := lowersNeat_of_spells hblock
      refine Yields.bind (P := allNeat) (Yields.inScope ((Yields.trivial _).bind fun _ _ =>
        hbody _ hplace)) fun body hbody => Yields.pure ?_
      rw [Stmt.Neat]
      refine ⟨?_, ?_, hbody⟩
      · unfold methodName
        split
        · exact plain_of_isPlain (by decide)
        · exact hname.plain
      · have hplain : ∀ param ∈ params.map Param.name, Plain param := by
          rw [List.forall_mem_map]
          exact hparams.forall_of fun _ _ hparam => hparam.plain
        unfold paramNames
        dsimp only
        split
        · exact hplain
        · rw [List.forall_mem_cons]
          exact ⟨plain_of_isPlain (by decide), hplain⟩

def LowersClass : ClassPhrase → Prop
  | .decl decl => Plain decl.name ∧ Yields (classDecl decl) Stmt.Neat
  | .members _ list => ∀ place, NeatPlace place →
      Yields (fields place list) allNeat ∧ Yields (definitions place list) allNeat

theorem lowersClass_of_spells {phrase : ClassPhrase} {tokens : List Token}
    (h : SpellsClass phrase tokens) : LowersClass phrase := by
  induction h with
  | decl _ hname _ _ ih =>
      refine ⟨hname.plain, ?_⟩
      rw [classDecl]
      refine Yields.inScope ((Yields.trivial _).bind fun table _ => ?_)
      obtain ⟨hfields, hdefinitions⟩ := ih ⟨some ⟨_, table.depth - 1⟩, none⟩ (by
        rintro cls ⟨⟩
        exact hname.plain)
      refine hfields.bind fun front hfront => hdefinitions.bind fun rest hrest => Yields.pure ?_
      rw [Stmt.Neat]
      exact ⟨hname.plain, allNeat_append hfront hrest⟩
  | done _ =>
      intro place _
      rw [fields, definitions]
      exact ⟨Yields.pure True.intro, Yields.pure True.intro⟩
  | skip _ _ ih => exact ih
  | field hvariable _ _ ih =>
      intro place hplace
      obtain ⟨hfields, hdefinitions⟩ := ih place hplace
      rw [fields, definitions]
      refine ⟨?_, hdefinitions⟩
      refine (initial_neat hplace hvariable.plain.2).bind fun source hsource =>
        (Yields.trivial _).bind fun _ _ => hfields.bind fun rest hrest => Yields.pure ?_
      rw [allNeat]
      exact ⟨neat_assign hvariable.plain.1 hsource, hrest⟩
  | method _ _ _ hmethod _ ih | constructor _ _ _ hmethod _ ih =>
      intro place hplace
      obtain ⟨hfields, hdefinitions⟩ := ih place hplace
      rw [fields, definitions]
      refine ⟨hfields, (method_neat hplace hmethod).bind fun first hfirst =>
        hdefinitions.bind fun rest hrest => Yields.pure ?_⟩
      rw [allNeat]
      exact ⟨hfirst, hrest⟩
  | nested _ _ _ ihdecl ih =>
      intro place hplace
      obtain ⟨hfields, hdefinitions⟩ := ih place hplace
      rw [fields, definitions]
      refine ⟨hfields, ihdecl.2.bind fun first hfirst => hdefinitions.bind fun rest hrest =>
        Yields.pure ?_⟩
      rw [allNeat]
      exact ⟨hfirst, hrest⟩

theorem items_neat {list : List Item} {tokens : List Token} (h : SpellsItems list tokens) :
    Yields (items list) fun chunks => ∀ chunk ∈ chunks, chunk.Neat := by
  induction h with
  | nil => exact Yields.pure (by simp)
  | declaration _ hdecl _ ih =>
      rw [items, item]
      refine Yields.bind (P := Chunk.Neat) (Yields.map (lowersClass_of_spells hdecl).2)
        fun first hfirst => ih.bind fun rest hrest => Yields.pure ?_
      exact List.forall_mem_cons.mpr ⟨hfirst, hrest⟩
  | statement hs _ ih =>
      have hplace : NeatPlace .outside := by rintro cls ⟨⟩
      rw [items, item]
      have hchunk : Yields (item (.statement _)) Chunk.Neat :=
        Yields.map (lowersNeat_of_spells hs .outside hplace false)
      refine hchunk.bind fun first hfirst => ih.bind fun rest hrest => Yields.pure ?_
      exact List.forall_mem_cons.mpr ⟨hfirst, hrest⟩

theorem classes_plain {list : List Item} {tokens : List Token} (h : SpellsItems list tokens) :
    ∀ decl ∈ (Program.mk list).classes, Plain decl.name := by
  induction h with
  | nil => simp [Program.classes]
  | @declaration decl list _ _ _ _ hdecl _ ih =>
      have hclasses : (Program.mk (.declaration decl :: list)).classes =
          decl :: (Program.mk list).classes := rfl
      rw [hclasses, List.forall_mem_cons]
      exact ⟨(lowersClass_of_spells hdecl).1, ih⟩
  | statement _ _ ih => exact ih

end Lowering

namespace Program

open Grammar (spellsItems_of_ofTokens isTable_tokenize)

theorem neat_toModule {source : String} {program : Program} {m : Target.Module}
    (hsource : ofSource source = .ok program) (hmodule : program.toModule = .ok m) : m.Neat := by
  have hspells := spellsItems_of_ofTokens (isTable_tokenize source) hsource
  unfold toModule at hmodule
  cases hitems : (Lowering.items program.items).outcome .empty with
  | mk result after =>
      rw [hitems] at hmodule
      cases result with
      | error error => cases hmodule
      | ok chunks =>
          cases hmodule
          refine ⟨Lowering.items_neat hspells _ _ _ hitems, fun name hname => ?_⟩
          obtain ⟨decl, hdecl, rfl⟩ := Option.map_eq_some_iff.mp hname
          exact Lowering.classes_plain hspells decl (List.mem_of_find?_eq_some hdecl)

/-- The Python that a program becomes is well blocked. -/
theorem wellBlocked_toPython {source text : String} {program : Program}
    (hsource : ofSource source = .ok program) (htext : program.toPython = .ok text) :
    WellBlocked (rowsOf text) := by
  unfold toPython at htext
  cases hmodule : program.toModule with
  | error error =>
      rw [hmodule] at htext
      cases htext
  | ok m =>
      rw [hmodule] at htext
      cases htext
      exact m.wellBlocked_toText (neat_toModule hsource hmodule)

/-- An empty branch, an empty cleanup and a switch that is only its default. -/
theorem wellBlocked_toPython_try :
    let source := "try \x7b if (a) ; else if (b) x = 1; switch (c) \x7b default: y = 2; \x7d " ++
      "\x7d finally \x7b \x7d"
    let text := "try:\n    if a:\n        pass\n    elif b:\n        x = 1\n    y = 2\n" ++
      "finally:\n    pass\n"
    ∃ program, ofSource source = .ok program ∧ program.toPython = .ok text ∧
      WellBlocked (rowsOf text) := by
  intro source text
  obtain ⟨program, hprogram, htext⟩ := exists_program source
    (fun program => program.toPython.toOption = some text) (by decide +kernel)
  have hpython : program.toPython = .ok text := by
    cases hresult : program.toPython with
    | error error =>
        rw [hresult] at htext
        cases htext
    | ok other =>
        rw [hresult] at htext
        cases htext
        rfl
  exact ⟨program, hprogram, hpython, wellBlocked_toPython hprogram hpython⟩

end Program

end MiniJava
