import MiniJava.Proofs.Diagnostics.Typed
import MiniJava.Proofs.Lowering.Breaks
import MiniJava.Proofs.Lowering.Words
import MiniJava.Proofs.Python.Token

/-!
# Names of emitted variables

Lowering copies names: no scope of emitted code has a name that the source does not have in the same
place, and what is declared in a method is a variable of its function. Declarations of one name in
one method therefore share a variable. The checker keeps them in different scopes as long as both
are in scope, but a function has no scopes within.
-/

namespace MiniJava

/-- Scope by scope, emitted code keeps what the source mentions. -/
def KeptScopes (mentions : List (List Mention)) (words : List (List Target.Word)) : Prop :=
  List.Forall₂ KeptAll mentions words

namespace Lowering

open Target (allWords allScopes)

section Members

variable {place : Place} {table after : SymbolTable}

theorem method_kept {decl : Method} {out : Target.Stmt} (hinside : place.Inside table.enter)
    (h : (method place decl).outcome table = (.ok out, after)) :
    out.words = [⟨methodName decl, true⟩] ∧ KeptScopes [decl.mentioned] out.scopes := by
  obtain ⟨body, inner, hbody, rfl, rfl⟩ := exists_of_method h
  have hmethod : Place.Inside { place with method := some (kindOf decl) }
      (table.enter.bringParams decl.params) := fun cls hclass =>
    (SymbolTable.Extends.bringParams table.enter decl.params).inside hinside cls hclass
  have hparams (names : List String) :
      KeptAll (names.map .declared) (names.map fun name => ⟨name, true⟩) := by
    induction names with
    | nil => exact .nil
    | cons first rest ih => exact .cons ⟨rfl, fun _ => rfl⟩ ih
  exact ⟨rfl, .cons ((hparams _).append (stmts_keep _ decl.body hmethod hbody).words) .nil⟩

theorem fields_keep {members : List Member} {out : List Target.Stmt}
    (h : (fields place members).outcome table = (.ok out, after)) :
    Keeps (fieldsMentioned members) out := by
  induction members generalizing table out with
  | nil =>
      cases h
      exact .nil
  | cons member rest ih =>
      cases member with
      | field decl =>
          obtain ⟨source, more, hsource, hmore, rfl⟩ := exists_of_field h
          have hfield : Keeps (.declared decl.name :: mentionedIn decl.init.toList)
              [Target.Stmt.assign (.name decl.name) source] :=
            .single (.cons ⟨rfl, fun _ => rfl⟩ (initial_kept hsource)) rfl
          exact hfield.append (ih hmore)
      | method decl => exact ih h
      | nested decl => exact ih h

end Members

mutual

theorem class_kept : (decl : ClassDecl) → ∀ {table after : SymbolTable} {out : Target.Stmt},
    (classDecl decl).outcome table = (.ok out, after) →
      out.words = [⟨decl.name, true⟩] ∧ KeptScopes (classScopes decl) out.scopes
  | ⟨modifiers, name, members, position⟩, table, after, out, h => by
      obtain ⟨front, rest, between, inner, hfront, hrest, rfl, rfl⟩ := exists_of_class h
      have hinside : Place.Inside ⟨some ⟨name, table.enter.depth - 1⟩, none⟩ between.enter := by
        refine (fields_refers rfl hfront).scope.inside_enter fun cls hclass => ?_
        cases hclass
        exact Nat.lt_succ_self _
      have hfields := fields_keep hfront
      obtain ⟨hmembers, hscopes⟩ := members_kept _ members hinside hrest
      refine ⟨rfl, ?_⟩
      rw [classScopes, Target.Stmt.scopes, Target.allWords_append, Target.allScopes_append,
        hfields.scopes]
      exact .cons (hfields.words.append hmembers) hscopes

theorem members_kept (place : Place) : (members : List Member) →
    ∀ {table after : SymbolTable} {out : List Target.Stmt}, place.Inside table.enter →
      (definitions place members).outcome table = (.ok out, after) →
        KeptAll (membersMentioned members) (allWords out) ∧
          KeptScopes (memberScopes members) (allScopes out)
  | [], table, after, out, hinside, h => by
      rw [definitions] at h
      cases h
      rw [memberScopes]
      exact ⟨.nil, .nil⟩
  | .field decl :: rest, table, after, out, hinside, h => by
      rw [definitions] at h
      rw [memberScopes]
      exact members_kept place rest hinside h
  | .method decl :: rest, table, after, out, hinside, h => by
      rw [definitions] at h
      obtain ⟨line, more, between, hline, hmore, rfl⟩ := exists_of_pair h
      obtain ⟨hname, hbody⟩ := method_kept hinside hline
      obtain ⟨hwords, hscopes⟩ := members_kept place rest
        ((method_refers hline).scope.inside_enter hinside) hmore
      rw [memberScopes, allWords, allScopes, hname]
      exact ⟨.cons ⟨rfl, fun _ => rfl⟩ hwords, List.rel_append hbody hscopes⟩
  | .nested decl :: rest, table, after, out, hinside, h => by
      rw [definitions] at h
      obtain ⟨line, more, between, hline, hmore, rfl⟩ := exists_of_pair h
      obtain ⟨hname, hclass⟩ := class_kept decl hline
      obtain ⟨hwords, hscopes⟩ := members_kept place rest
        ((class_refers decl hline).scope.inside_enter hinside) hmore
      rw [memberScopes, allWords, allScopes, hname]
      exact ⟨.cons ⟨rfl, fun _ => rfl⟩ hwords, List.rel_append hclass hscopes⟩

end

theorem item_kept {i : Item} {table after : SymbolTable} {chunk : Target.Chunk}
    (h : (item i).outcome table = (.ok chunk, after)) :
    KeptAll i.mentioned chunk.words ∧ KeptScopes i.scopes chunk.scopes := by
  cases i with
  | declaration decl =>
      obtain ⟨line, _, hline, hpure⟩ := exists_of_bind h
      cases hpure
      obtain ⟨hname, hscopes⟩ := class_kept decl hline
      rw [Target.Chunk.words, hname]
      exact ⟨.cons ⟨rfl, fun _ => rfl⟩ .nil, hscopes⟩
  | statement s =>
      obtain ⟨lines, _, hlines, hpure⟩ := exists_of_bind h
      cases hpure
      have hkeeps := stmt_keeps .outside false s (fun _ hclass => by cases hclass) hlines
      rw [Target.Chunk.scopes, hkeeps.scopes]
      exact ⟨hkeeps.words, .nil⟩

theorem items_kept {list : List Item} {table after : SymbolTable} {chunks : List Target.Chunk}
    (h : (items list).outcome table = (.ok chunks, after)) :
    KeptAll (list.flatMap Item.mentioned) (chunks.flatMap Target.Chunk.words) ∧
      KeptScopes (list.flatMap Item.scopes) (chunks.flatMap Target.Chunk.scopes) := by
  induction list generalizing table chunks with
  | nil =>
      cases h
      exact ⟨.nil, .nil⟩
  | cons first rest ih =>
      obtain ⟨chunk, more, between, hchunk, hmore, rfl⟩ := exists_of_pair h
      obtain ⟨hwords, hscopes⟩ := item_kept hchunk
      obtain ⟨hmoreWords, hmoreScopes⟩ := ih hmore
      exact ⟨hwords.append hmoreWords, List.rel_append hscopes hmoreScopes⟩

end Lowering

/-- No scope declares a name twice. -/
def SymbolTable.Distinct (table : SymbolTable) : Prop :=
  ∀ scope ∈ table.scopes, (scope.map Prod.fst).Nodup

namespace SymbolTable

theorem distinct_bare (table : SymbolTable) : table.bare.Distinct ↔ table.Distinct := by
  have hscopes : table.bare.scopes = table.scopes.map Scope.bare := rfl
  simp only [Distinct, hscopes, List.forall_mem_map, Scope.bare, List.map_map]
  rfl

variable {table : SymbolTable}

theorem Distinct.bring (h : table.Distinct) (name : String) (symbol : Symbol) :
    (table.bring name symbol).Distinct := by
  unfold SymbolTable.bring
  split
  · exact h
  · next hnone =>
      obtain ⟨hcurrent, henclosing⟩ := List.forall_mem_cons.mp h
      refine List.forall_mem_cons.mpr ⟨List.nodup_cons.mpr ⟨fun hmem => ?_, hcurrent⟩, henclosing⟩
      obtain ⟨entry, hentry, hname⟩ := List.mem_map.mp hmem
      have hother := List.lookup_eq_none_iff.mp hnone entry hentry
      simp [hname] at hother

theorem Distinct.leave (h : table.Distinct) : table.leave.Distinct := by
  unfold SymbolTable.leave
  split
  · exact h
  · next henclosing =>
      have hall := (List.forall_mem_cons.mp h).2
      rwa [henclosing] at hall

theorem Distinct.after (h : table.Distinct) (c : Check) : (c.after table).Distinct := by
  rw [Check.after_eq]
  cases c with
  | enter => exact List.forall_mem_cons.mpr ⟨List.nodup_nil, h⟩
  | leave => exact h.leave
  | declares type name position initialized constant => exact h.bring name _
  | stores target op value position =>
      rw [← distinct_bare, bare_markInitialized, distinct_bare]
      exact h
  | _ => exact h

end SymbolTable

namespace Program

theorem visits_distinct (program : Program) : ∀ visit ∈ program.visits, visit.table.Distinct :=
  SymbolTable.visits_invariant (fun _ c h => h.after c) program.checks
    (List.forall_mem_singleton.mpr List.nodup_nil)

/-- Scope by scope and name by name, the emitted names are the source's, so one of them is reserved
exactly if the source's is, and every declared name is a variable of its function. At no point of
the checker's walk does a scope have two declarations of one name. -/
theorem names_kept (program : Program) (m : Target.Module) (h : program.toModule = .ok m) :
    KeptScopes program.scopes m.scopes ∧
      ((∃ word ∈ m.scopes.flatten, word.text ∈ Python.reserved) ↔
        ∃ mention ∈ program.scopes.flatten, mention.text ∈ Python.reserved) ∧
      ∀ visit ∈ program.visits, visit.table.Distinct := by
  obtain ⟨after, hitems⟩ := exists_of_toModule h
  obtain ⟨hwords, hscopes⟩ := Lowering.items_kept hitems
  have hkept : KeptScopes program.scopes m.scopes := .cons hwords hscopes
  have hall : KeptAll program.scopes.flatten m.scopes.flatten := List.rel_flatten hkept
  have hreserved : (∃ text ∈ m.scopes.flatten.map Target.Word.text, text ∈ Python.reserved) ↔
      ∃ text ∈ program.scopes.flatten.map Mention.text, text ∈ Python.reserved := by
    rw [hall.texts]
  simp only [List.mem_map, exists_exists_and_eq_and] at hreserved
  exact ⟨hkept, hreserved, program.visits_distinct⟩

/-- A parameter and the variable of a block share the variable of the function. -/
theorem names_kept_shadowed :
    ∃ program m, ofSource ("class A \x7b int get(int x) \x7b if (x > 0) \x7b int x = 2; " ++
        "return x; \x7d return x; \x7d \x7d") = .ok program ∧
      program.toModule = .ok m ∧
      m.scopes.map (List.map Target.Word.text) =
        [["A"], ["get"], ["self", "x", "x", "x", "x", "x"]] ∧
      KeptScopes program.scopes m.scopes :=
  exists_module (fun _ m => m.scopes.map (List.map Target.Word.text) =
      [["A"], ["get"], ["self", "x", "x", "x", "x", "x"]]) (by decide +kernel)
    fun program m hmodule htexts => ⟨htexts, (names_kept program m hmodule).1⟩

/-- In the first program two variables are in scope together and share one, and the second has a
Python keyword for a variable. -/
theorem names_clash :
    (∃ program m, ofSource "int x = 1; \x7b int x = 2; \x7d System.out.println(x);" = .ok program ∧
      program.toModule = .ok m ∧ program.diagnostics = [] ∧
      (∃ visit ∈ program.visits, visit.table.scopes.map (List.map Prod.fst) = [["x"], ["x"]]) ∧
      m.scopes = [[⟨"x", true⟩, ⟨"x", true⟩, ⟨"x", false⟩]]) ∧
    ∃ program m, ofSource "int lambda = 1;" = .ok program ∧ program.toModule = .ok m ∧
      program.diagnostics = [] ∧ m.scopes = [[⟨"lambda", true⟩]] ∧ "lambda" ∈ Python.reserved :=
  ⟨exists_module (fun program m => program.diagnostics = [] ∧
      (∃ visit ∈ program.visits, visit.table.scopes.map (List.map Prod.fst) = [["x"], ["x"]]) ∧
      m.scopes = [[⟨"x", true⟩, ⟨"x", true⟩, ⟨"x", false⟩]]) (by decide +kernel) fun _ _ _ h => h,
    exists_module (fun program m => program.diagnostics = [] ∧ m.scopes = [[⟨"lambda", true⟩]] ∧
      "lambda" ∈ Python.reserved) (by decide +kernel) fun _ _ _ h => h⟩

end Program

end MiniJava
