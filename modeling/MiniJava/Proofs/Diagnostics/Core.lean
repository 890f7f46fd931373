import MiniJava.Proofs.Diagnostics.Typed
import MiniJava.Proofs.Evaluation.Core

/-!
# Clean core programs

A clean core program is sound: every name that it reads or changes is in scope, a declaration does
not hide a name that is in scope, and what is stored in a variable is of the variable's type. This
says of scopes and types all that a run relies on, without the table of the checker.
-/

namespace MiniJava

open Lexeme

section Sound

variable (types : String → Option ValueType)

structure Expr.Sound (scope : List String) (type : ValueType) (e : Expr) : Prop where
  typed : e.coreType? types = some type
  names : ∀ name ∈ e.names, name ∈ scope
  literals : ∀ value ∈ e.literals, value.IsLexical ∧ value.IsPortable

def Expr.SoundEffect (scope : List String) : Expr → Prop
  | .assign target none value _ =>
    target ∈ scope ∧ ∃ type, types target = some type ∧ value.Sound types scope type
  | .assign target (some op) value _ =>
    target ∈ scope ∧ types target = some .int ∧ (op = .add ∨ op = .sub ∨ op = .mul) ∧
      value.Sound types scope .int
  | .step target _ _ _ => target ∈ scope ∧ types target = some .int
  | _ => False

structure VarDecl.Sound (scope : List String) (decl : VarDecl) : Prop where
  fresh : decl.name ∉ scope
  name : Python.isTarget decl.name = true
  free : decl.name ∉ Python.reserved
  type : types decl.name = some (.ofTypeName decl.type)
  value : ∃ init, decl.init = some init ∧ init.Sound types scope (.ofTypeName decl.type)

mutual

def Stmt.Sound : Stmt → List String → Prop
  | .declare decl, scope => decl.Sound types scope
  | .expression e, scope => e.SoundEffect types scope
  | .block body, scope => soundAll body scope
  | .ifElse e thenBranch none, scope =>
    e.Sound types scope .boolean ∧ thenBranch.declared = [] ∧ thenBranch.Sound scope
  | .ifElse e thenBranch (some elseBranch), scope =>
    e.Sound types scope .boolean ∧ (thenBranch.declared = [] ∧ thenBranch.Sound scope) ∧
      elseBranch.declared = [] ∧ elseBranch.Sound scope
  | .whileLoop e body, scope =>
    e.Sound types scope .boolean ∧ body.declared = [] ∧ body.Sound scope
  | .forLoop (some (.declare decl)) (some e) update body, scope =>
    decl.Sound types scope ∧ types decl.name = some .int ∧
      e.Sound types (decl.name :: scope) .boolean ∧ e.leavesCounter decl.name = true ∧
      (∀ change ∈ update, change.SoundEffect types (decl.name :: scope)) ∧
      body.declared = [] ∧ body.Sound (decl.name :: scope)
  | .print .println [e] _, scope =>
    ∃ type, (type = .int ∨ type = .string) ∧ e.Sound types scope type
  | .empty, _ => True
  | _, _ => False

def Stmt.soundAll : List Stmt → List String → Prop
  | [], _ => True
  | first :: rest, scope => first.Sound scope ∧ soundAll rest (first.declared ++ scope)

end

end Sound

namespace SymbolTable

/-- The names of all scopes, the newest first. -/
def names (table : SymbolTable) : List String :=
  table.scopes.flatMap fun scope => scope.map Prod.fst

theorem names_bare (table : SymbolTable) : table.bare.names = table.names := by
  have hscopes : table.bare.scopes = table.scopes.map Scope.bare := rfl
  simp [names, hscopes, List.flatMap_map, Scope.bare, Function.comp_def]

theorem names_of_bare {table other : SymbolTable} (h : other.bare = table.bare) :
    other.names = table.names := by rw [← names_bare, h, names_bare]

theorem names_run_expr (table : SymbolTable) (e : Expr) :
    (table.run e.checks).names = table.names := names_of_bare (table.run_expr_bare e)

theorem mem_names {table : SymbolTable} {name : String} {symbol : Symbol}
    (h : table.lookup? name = some symbol) : name ∈ table.names := by
  obtain ⟨⟨number, found⟩, hfound, rfl⟩ := Option.map_eq_some_iff.mp h
  obtain ⟨scope, hscope, hmem⟩ := resolveIn_mem hfound
  exact List.mem_flatMap.mpr ⟨scope, hscope, List.mem_map.mpr ⟨_, hmem, rfl⟩⟩

/-- A check adds no name but the one that it declares. -/
theorem names_after (table : SymbolTable) (c : Check) :
    (c.after table).names.Sublist (c.declaration?.toList.map Prod.fst ++ table.names) := by
  rw [Check.after_eq]
  cases c with
  | leave =>
      have henclosing : table.names =
          table.current.map Prod.fst ++ table.enclosing.flatMap (List.map Prod.fst) := rfl
      change table.leave.names.Sublist table.names
      unfold SymbolTable.leave
      split
      · exact List.Sublist.refl _
      · next outer rest hscopes =>
          rw [henclosing, hscopes]
          exact List.sublist_append_right _ _
  | declares type name position initialized constant =>
      change (table.bring name _).names.Sublist (name :: table.names)
      unfold SymbolTable.bring
      split
      · exact List.sublist_cons_self _ _
      · exact List.Sublist.refl _
  | stores target op value position =>
      exact (names_of_bare (table.bare_markInitialized target)).symm ▸ List.Sublist.refl _
  | _ => exact List.Sublist.refl _

theorem names_run (checks : List Check) (table : SymbolTable) :
    (table.run checks).names.Sublist
      (((declarationsIn checks).map Prod.fst).reverse ++ table.names) := by
  induction checks generalizing table with
  | nil => exact List.Sublist.refl _
  | cons first rest ih =>
      have hfirst := (table.names_after first).append_left
        ((declarationsIn rest).map Prod.fst).reverse
      refine (ih (first.after table)).trans (hfirst.trans ?_)
      rw [declarationsIn_cons]
      cases first.declaration? <;> simp

def Fits (types : String → Option ValueType) (table : SymbolTable) : Prop :=
  ∀ scope ∈ table.scopes, ∀ entry ∈ scope, types entry.1 = some entry.2.type

theorem fits_bare {types : String → Option ValueType} (table : SymbolTable) :
    table.bare.Fits types ↔ table.Fits types := by
  have hscopes : table.bare.scopes = table.scopes.map Scope.bare := rfl
  simp only [Fits, hscopes, List.forall_mem_map, Scope.bare]
  rfl

variable {types : String → Option ValueType} {table : SymbolTable}

theorem Fits.enter (h : table.Fits types) : table.enter.Fits types :=
  List.forall_mem_cons.mpr ⟨nofun, h⟩

theorem Fits.bring (h : table.Fits types) {name : String} {symbol : Symbol}
    (htype : types name = some symbol.type) : (table.bring name symbol).Fits types := by
  unfold SymbolTable.bring
  split
  · exact h
  · obtain ⟨hcurrent, henclosing⟩ := List.forall_mem_cons.mp h
    exact List.forall_mem_cons.mpr ⟨List.forall_mem_cons.mpr ⟨htype, hcurrent⟩, henclosing⟩

theorem Fits.after (h : table.Fits types) {c : Check}
    (hc : ∀ declaration ∈ c.declaration?, types declaration.1 = some declaration.2) :
    (c.after table).Fits types := by
  rw [Check.after_eq]
  cases c with
  | enter => exact h.enter
  | leave =>
      change table.leave.Fits types
      unfold SymbolTable.leave
      split
      · exact h
      · next henclosing =>
          have hall := (List.forall_mem_cons.mp h).2
          rwa [henclosing] at hall
  | declares type name position initialized constant => exact h.bring (hc _ rfl)
  | stores target op value position =>
      rw [← fits_bare, bare_markInitialized, fits_bare]
      exact h
  | _ => exact h

theorem Fits.run {checks : List Check} (h : table.Fits types)
    (hchecks : ∀ declaration ∈ declarationsIn checks, types declaration.1 = some declaration.2) :
    (table.run checks).Fits types := by
  induction checks generalizing table with
  | nil => exact h
  | cons first rest ih =>
      rw [declarationsIn_cons, List.forall_mem_append] at hchecks
      exact ih (h.after fun declaration hd => hchecks.1 declaration (Option.mem_toList.mpr hd))
        hchecks.2

theorem Fits.lookup (h : table.Fits types) {name : String} {symbol : Symbol}
    (hsymbol : table.lookup? name = some symbol) : types name = some symbol.type := by
  obtain ⟨⟨number, found⟩, hfound, rfl⟩ := Option.map_eq_some_iff.mp hsymbol
  obtain ⟨scope, hscope, hmem⟩ := resolveIn_mem hfound
  exact h scope hscope _ hmem

end SymbolTable

/-- Checks that pass, from a table with the types of a core program, and that declare no name which
the table or an earlier one of them has. -/
structure CoreWalk (types : String → Option ValueType) (table : SymbolTable)
    (checks : List Check) : Prop where
  plain : ∀ name type, types name = some type → type = .int ∨ type = .string
  clean : table.Clean checks
  fits : table.Fits types
  declarations : ∀ declaration ∈ declarationsIn checks,
    types declaration.1 = some declaration.2 ∧ declaration.1 ∉ Python.reserved ∧
      declaration.1 ≠ "__debug__"
  distinct : ((declarationsIn checks).map Prod.fst ++ table.names).Nodup

namespace CoreWalk

variable {types : String → Option ValueType} {table : SymbolTable} {checks more : List Check}

theorem append (h : CoreWalk types table (checks ++ more)) :
    CoreWalk types table checks ∧ CoreWalk types (table.run checks) more := by
  obtain ⟨hplain, hclean, hfits, hdeclarations, hdistinct⟩ := h
  obtain ⟨hchecks, hmore⟩ := SymbolTable.clean_append.mp hclean
  rw [declarationsIn_append] at hdeclarations hdistinct
  obtain ⟨hfront, hrest⟩ := List.forall_mem_append.mp hdeclarations
  rw [List.map_append] at hdistinct
  refine ⟨⟨hplain, hchecks, hfits, hfront, ?_⟩,
    ⟨hplain, hmore, hfits.run fun declaration hd => (hfront declaration hd).1, hrest, ?_⟩⟩
  · exact hdistinct.sublist ((List.sublist_append_left _ _).append_right _)
  · have hnames := (table.names_run checks).append_left
      ((declarationsIn more).map Prod.fst)
    refine List.Nodup.sublist hnames (List.Perm.nodup ?_ hdistinct)
    rw [← List.append_assoc]
    refine List.Perm.append_right _ (List.perm_append_comm.trans ?_)
    exact List.Perm.append_left _ (List.reverse_perm _).symm

theorem cons {c : Check} (h : CoreWalk types table (c :: checks)) :
    c.Passes table ∧ CoreWalk types (c.after table) checks := by
  obtain ⟨hfirst, hrest⟩ := append (show CoreWalk types table ([c] ++ checks) from h)
  exact ⟨(SymbolTable.clean_cons.mp hfirst.clean).1, hrest⟩

end CoreWalk

def PortableLeaf (leaf : Leaf) : Prop :=
  (leaf.1 = .identifier → Python.isIdentifier leaf.2 = true) ∧
    ∀ text, leaf = (Literal.string text).leaf → Quotable '"' text.toList ∧ Python.IsPlain text.toList

section Expressions

variable {types : String → Option ValueType} {table : SymbolTable} {e : Expr} {type : ValueType}

theorem Expr.literals_portable (h : e.coreType? types = some type)
    (hleaves : ∀ leaf ∈ e.leaves, PortableLeaf leaf) :
    ∀ value ∈ e.literals, value.IsLexical ∧ value.IsPortable := by
  induction e generalizing type with
  | literal value position =>
      rw [literals, List.forall_mem_singleton]
      cases value with
      | number text =>
          obtain ⟨hdecimal, -⟩ := Option.ite_none_right_eq_some.mp h
          exact ⟨True.intro, isDecimal_of_isDecimalInteger hdecimal⟩
      | string text => exact (hleaves _ List.mem_cons_self).2 text rfl
      | char text => cases h
      | bool value => exact ⟨True.intro, True.intro⟩
      | null => exact ⟨True.intro, True.intro⟩
  | name word position => exact List.forall_mem_nil _
  | unary op operand ih =>
      obtain ⟨inner, hinner, -⟩ := Option.bind_eq_some_iff.mp h
      exact ih hinner hleaves
  | binary op lhs rhs ihl ihr =>
      obtain ⟨left, hleft, hrest⟩ := Option.bind_eq_some_iff.mp h
      obtain ⟨right, hright, -⟩ := Option.bind_eq_some_iff.mp hrest
      obtain ⟨hl, hr⟩ := List.forall_mem_append.mp hleaves
      exact List.forall_mem_append.mpr ⟨ihl hleft hl, ihr hright hr⟩
  | assign target op value position => cases h
  | step target op form position => cases h

/-- The names in an expression without a diagnostic are declared. -/
theorem SymbolTable.exists_lookup (e : Expr) {table : SymbolTable} (h : table.Clean e.checks) :
    ∀ name ∈ e.names, ∃ symbol, table.lookup? name = some symbol := by
  have hbehind {name : String} {table other : SymbolTable} (hbare : other.bare = table.bare)
      (hfound : ∃ symbol, other.lookup? name = some symbol) :
      ∃ symbol, table.lookup? name = some symbol := by
    obtain ⟨symbol, hsymbol⟩ := hfound
    have htype := typeOf_of_bare hbare (.name name default)
    rw [typeOf, typeOf, hsymbol] at htype
    obtain ⟨found, hfound, -⟩ := Option.map_eq_some_iff.mp htype.symm
    exact ⟨found, hfound⟩
  induction e generalizing table with
  | literal value position => exact List.forall_mem_nil _
  | name word position =>
      obtain ⟨symbol, hsymbol, -⟩ := Check.passes_reads.mp (clean_cons.mp h).1
      exact List.forall_mem_singleton.mpr ⟨symbol, hsymbol⟩
  | binary op lhs rhs ihl ihr =>
      obtain ⟨hoperands, -⟩ := clean_append.mp h
      obtain ⟨hl, hr⟩ := clean_append.mp hoperands
      exact List.forall_mem_append.mpr ⟨ihl hl,
        fun name hname => hbehind (table.run_expr_bare lhs) (ihr hr name hname)⟩
  | unary op operand ih => exact ih (clean_append.mp h).1
  | assign target op value position ih =>
      obtain ⟨hbegins, hrest⟩ := clean_cons.mp h
      obtain ⟨symbol, hsymbol, -⟩ := Check.passes_begins.mp hbegins
      rw [Check.after_eq] at hrest
      exact List.forall_mem_cons.mpr ⟨⟨symbol, hsymbol⟩, ih (clean_append.mp hrest).1⟩
  | step target op form position =>
      obtain ⟨symbol, hsymbol, -⟩ := Check.passes_steps.mp (clean_cons.mp h).1
      exact List.forall_mem_singleton.mpr ⟨symbol, hsymbol⟩

namespace CoreWalk

/-- A core expression is sound, and the checker gives it its type. -/
theorem expr (h : CoreWalk types table e.checks) (htyped : e.coreType? types = some type)
    (hleaves : ∀ leaf ∈ e.leaves, PortableLeaf leaf) :
    e.Sound types table.names type ∧ table.typeOf e = some type := by
  have hlookup := SymbolTable.exists_lookup e h.clean
  refine ⟨⟨htyped, fun name hname => ?_, e.literals_portable htyped hleaves⟩,
    SymbolTable.typeOf_of_coreType? htyped fun name hname => ?_⟩
  · obtain ⟨symbol, hsymbol⟩ := hlookup name hname
    exact SymbolTable.mem_names hsymbol
  · obtain ⟨symbol, hsymbol⟩ := hlookup name hname
    rw [hsymbol, h.fits.lookup hsymbol]
    rfl

/-- A condition is boolean. -/
theorem condition {statement : Conditional} (h : CoreWalk types table (statement.checks e))
    (hcore : e.isCore types = true) (hleaves : ∀ leaf ∈ e.leaves, PortableLeaf leaf) :
    e.Sound types table.names .boolean := by
  obtain ⟨type, htyped⟩ := Option.isSome_iff_exists.mp hcore
  obtain ⟨hexpr, htests⟩ := h.append
  obtain ⟨hsound, htype⟩ := hexpr.expr htyped hleaves
  rw [← SymbolTable.typeOf_run table e] at htype
  rwa [Check.passes_tests.mp htests.cons.1 type htype] at hsound

end CoreWalk

end Expressions

/-- The type of a core expression. -/
theorem Expr.coreType?_cases {types : String → Option ValueType}
    (hplain : ∀ name type, types name = some type → type = .int ∨ type = .string) {e : Expr}
    {type : ValueType} (h : e.coreType? types = some type) :
    type = .int ∨ type = .string ∨ type = .boolean := by
  cases e with
  | literal value position =>
      cases value with
      | number text =>
          obtain ⟨-, htype⟩ := Option.ite_none_right_eq_some.mp h
          exact .inl (Option.some.inj htype).symm
      | string text =>
          obtain ⟨-, htype⟩ := Option.ite_none_left_eq_some.mp h
          exact .inr (.inl (Option.some.inj htype).symm)
      | char text => cases h
      | bool value => cases h
      | null => cases h
  | name word position => exact (hplain word type h).imp_right .inl
  | unary op operand =>
      obtain ⟨inner, -, hop⟩ := Option.bind_eq_some_iff.mp h
      unfold UnaryOp.coreType? at hop
      split at hop <;> cases hop <;> simp
  | binary op lhs rhs =>
      obtain ⟨left, -, hrest⟩ := Option.bind_eq_some_iff.mp h
      obtain ⟨right, -, hop⟩ := Option.bind_eq_some_iff.mp hrest
      unfold BinaryOp.coreType? at hop
      grind
  | assign target op value position => cases h
  | step target op form position => cases h

/-- A variable of a core program accepts no core expression of another type. -/
theorem eq_of_accepts {target source : ValueType} {value : Expr}
    (htarget : target = .int ∨ target = .string)
    (hsource : source = .int ∨ source = .string ∨ source = .boolean)
    (h : target.accepts source = true ∨ Inspection.narrows target value = true) :
    source = target := by
  have hnarrows : Inspection.narrows target value = false := by
    rcases htarget with rfl | rfl <;> cases value <;> simp [Inspection.narrows]
  rw [hnarrows, or_iff_left Bool.false_ne_true] at h
  rcases htarget with rfl | rfl <;> rcases hsource with rfl | rfl | rfl <;>
    first | rfl | exact absurd h (by decide)

namespace CoreWalk

section Effects

variable {types : String → Option ValueType} {table : SymbolTable} {checks more : List Check}

/-- What is looked up behind an expression is what was looked up in front of it. -/
theorem lookup_run (h : CoreWalk types (table.run checks) more)
    (hbare : (table.run checks).bare = table.bare) {name : String} {symbol : Symbol}
    (hsymbol : table.lookup? name = some symbol) :
    ∃ found, (table.run checks).lookup? name = some found ∧ types name = some found.type := by
  have hlookup := table.lookup?_bare name
  rw [← hbare, SymbolTable.lookup?_bare, hsymbol] at hlookup
  obtain ⟨found, hfound, -⟩ := Option.map_eq_some_iff.mp hlookup
  exact ⟨found, hfound, h.fits.lookup hfound⟩

theorem effect {e : Expr} (h : CoreWalk types table e.checks) (hcore : e.isCoreEffect types = true)
    (hleaves : ∀ leaf ∈ e.leaves, PortableLeaf leaf) : e.SoundEffect types table.names := by
  cases e with
  | assign target op value position =>
      obtain ⟨hfront, hstores⟩ := h.append
      obtain ⟨hbegins, hvalue⟩ := hfront.cons
      rw [Check.after_eq] at hvalue
      obtain ⟨symbol, hsymbol, -⟩ := Check.passes_begins.mp hbegins
      have hmem := SymbolTable.mem_names hsymbol
      have hportable : ∀ leaf ∈ value.leaves, PortableLeaf leaf :=
        fun leaf hleaf => hleaves leaf (List.mem_cons_of_mem _ hleaf)
      cases op with
      | none =>
          obtain ⟨type, htyped⟩ := Option.isSome_iff_exists.mp hcore
          obtain ⟨hsound, htype⟩ := hvalue.expr htyped hportable
          have hbare : (table.run (.begins target none value position :: value.checks)).bare =
              table.bare := by
            rw [SymbolTable.run_cons, Check.after_eq]
            exact table.run_expr_bare value
          obtain ⟨found, hfound, htarget⟩ := hstores.lookup_run hbare hsymbol
          have haccepts := (Check.passes_assign hfound).mp hstores.cons.1 type
            ((SymbolTable.typeOf_of_bare hbare value).trans htype)
          have heq := eq_of_accepts (h.plain _ _ htarget) (Expr.coreType?_cases h.plain htyped)
            haccepts
          exact ⟨hmem, type, heq ▸ htarget, hsound⟩
      | some op =>
          simp only [Expr.isCoreEffect, Bool.and_eq_true, decide_eq_true_eq, Bool.or_eq_true] at hcore
          obtain ⟨⟨hop, htarget⟩, htyped⟩ := hcore
          exact ⟨hmem, htarget, or_assoc.mp hop, (hvalue.expr htyped hportable).1⟩
  | step target op form position =>
      obtain ⟨symbol, hsymbol, -⟩ := Check.passes_steps.mp h.cons.1
      exact ⟨SymbolTable.mem_names hsymbol, of_decide_eq_true hcore⟩
  | literal value position => cases hcore
  | name word position => cases hcore
  | unary op operand => cases hcore
  | binary op lhs rhs => cases hcore

theorem effects {update : List Expr} (h : CoreWalk types table (update.flatMap Expr.checks))
    (hcore : update.all (Expr.isCoreEffect types) = true)
    (hleaves : ∀ leaf ∈ update.flatMap Expr.leaves, PortableLeaf leaf) :
    ∀ change ∈ update, change.SoundEffect types table.names := by
  induction update generalizing table with
  | nil => exact nofun
  | cons first rest ih =>
      rw [List.all_cons, Bool.and_eq_true] at hcore
      rw [List.flatMap_cons, List.forall_mem_append] at hleaves
      obtain ⟨hfirst, hrest⟩ := h.append
      have hmore := ih hrest hcore.2 hleaves.2
      rw [SymbolTable.names_run_expr] at hmore
      exact List.forall_mem_cons.mpr ⟨hfirst.effect hcore.1 hleaves.1, hmore⟩

end Effects

section Statements

variable {types : String → Option ValueType} {table : SymbolTable}

/-- The declared name has the declared type, and it is new. -/
theorem declared {decl : VarDecl} (h : CoreWalk types table (decl.checks false)) :
    types decl.name = some (.ofTypeName decl.type) ∧ decl.name ∉ Python.reserved ∧
      decl.name ≠ "__debug__" ∧ decl.name ∉ table.names := by
  have hmem : (decl.name, .ofTypeName decl.type) ∈ declarationsIn (decl.checks false) := by
    simp [VarDecl.checks, declarationsIn, Check.declaration?]
  obtain ⟨htype, hfree, hassigned⟩ := h.declarations _ hmem
  refine ⟨htype, hfree, hassigned, fun hold => ?_⟩
  exact (List.nodup_append.mp h.distinct).2.2 _ (List.mem_map_of_mem hmem) _ hold rfl

theorem declaration {decl : VarDecl} (h : CoreWalk types table (decl.checks false))
    (hcore : decl.init.any (Expr.isCore types) = true)
    (hleaves : ∀ leaf ∈ decl.leaves, PortableLeaf leaf) : decl.Sound types table.names := by
  obtain ⟨init, hinit, hvalue⟩ : ∃ init, decl.init = some init ∧ init.isCore types = true := by
    simpa [Option.any_eq_true] using hcore
  obtain ⟨type, htyped⟩ := Option.isSome_iff_exists.mp hvalue
  obtain ⟨hdeclared, hfree, hassigned, hfresh⟩ := h.declared
  rw [VarDecl.checks, hinit] at h
  obtain ⟨hfront, hdeclares⟩ := h.append
  obtain ⟨hexpr, hinitializes⟩ := hfront.append
  have hparts : decl.leaves = decl.type.leaves ++ (.identifier, decl.name) :: init.leaves := by
    rw [VarDecl.leaves, hinit]
    rfl
  rw [hparts, List.forall_mem_append, List.forall_mem_cons] at hleaves
  obtain ⟨-, hname, hinner⟩ := hleaves
  obtain ⟨hsound, htype⟩ := hexpr.expr htyped hinner
  have haccepts := Check.passes_initializes.mp hinitializes.cons.1 type
    ((table.typeOf_run init init).trans htype)
  have heq : type = .ofTypeName decl.type :=
    eq_of_accepts (h.plain _ _ hdeclared) (Expr.coreType?_cases h.plain htyped) haccepts
  have hword : decl.name ∉ Python.keywords :=
    fun hkeyword => hfree (List.mem_append_left _ hkeyword)
  have htarget : Python.isTarget decl.name = true := by
    simp [Python.isTarget, Python.isName, hname.1 rfl, hword, hassigned]
  exact ⟨hfresh, htarget, hfree, hdeclared, init, hinit, heq ▸ hsound⟩

theorem names_enter (table : SymbolTable) :
    (Check.after table .enter).names = table.names := by
  rw [Check.after_eq]
  rfl

theorem names_run_condition (table : SymbolTable) (statement : Conditional) (e : Expr) :
    (table.run (statement.checks e)).names = table.names := by
  have hbare := Inspection.condition_bare ⟨table, []⟩ statement e
  rw [Inspection.run_condition, Inspection.symbols_run] at hbare
  exact SymbolTable.names_of_bare hbare

theorem names_run_effects (table : SymbolTable) (update : List Expr) :
    (table.run (update.flatMap Expr.checks)).names = table.names := by
  have hbare := Inspection.exprs_bare update ⟨table, []⟩
  rw [Inspection.run_exprs, Inspection.symbols_run] at hbare
  exact SymbolTable.names_of_bare hbare

/-- The names behind a statement are those in front of it and what it declares in their scope. -/
theorem names_run_stmt {s : Stmt} (h : CoreWalk types table (s.checks none))
    (hcore : s.isCore types = true) (hbraced : s.isBraced = true) :
    (table.run (s.checks none)).names = s.declared ++ table.names := by
  have hnone (hdeclared : s.declared = []) :
      (table.run (s.checks none)).names = s.declared ++ table.names := by
    have hextends := Inspection.stmt_extends none s ⟨table, []⟩
    rw [hdeclared, Inspection.run_stmt, Inspection.symbols_run] at hextends
    rw [hdeclared]
    exact SymbolTable.names_of_bare hextends.bare_eq
  cases s with
  | declare decl =>
      have hbare := Inspection.declaration_bare ⟨table, []⟩ decl false false true
      rw [Inspection.run_declaration, Inspection.symbols_run] at hbare
      refine (SymbolTable.names_of_bare hbare).trans ?_
      have hfresh : table.current.lookup decl.name = none := by
        refine List.lookup_eq_none_iff.mpr fun entry hentry => bne_iff_ne.mpr fun heq => ?_
        have hcurrent : entry.1 ∈ table.names :=
          List.mem_append_left _ (List.mem_map_of_mem hentry)
        exact h.declared.2.2.2 (heq ▸ hcurrent)
      rw [SymbolTable.bring, hfresh]
      rfl
  | ifElse e thenBranch elseBranch =>
      cases elseBranch with
      | none =>
          simp only [Stmt.isBraced, Bool.and_eq_true, List.isEmpty_iff] at hbraced
          exact hnone hbraced.1
      | some elseBranch =>
          simp only [Stmt.isBraced, Bool.and_eq_true, List.isEmpty_iff] at hbraced
          refine hnone ?_
          rw [Stmt.declared, hbraced.1.1, hbraced.2.1]
          rfl
  | whileLoop e body =>
      simp only [Stmt.isBraced, Bool.and_eq_true, List.isEmpty_iff] at hbraced
      exact hnone hbraced.1
  | doWhile body e => cases hcore
  | _ => exact hnone rfl

mutual

theorem stmt : (s : Stmt) → ∀ {table : SymbolTable}, CoreWalk types table (s.checks none) →
    s.isCore types = true → s.isBraced = true → (∀ leaf ∈ s.leaves, PortableLeaf leaf) →
    s.Sound types table.names
  | .declare decl, table, h, hcore, _, hleaves => by
      rw [Stmt.Sound]
      exact h.declaration (by rwa [Stmt.isCore] at hcore) (by rwa [Stmt.leaves] at hleaves)
  | .expression e, table, h, hcore, _, hleaves => by
      rw [Stmt.Sound]
      exact h.effect (by rwa [Stmt.isCore] at hcore) (by rwa [Stmt.leaves] at hleaves)
  | .block list, table, h, hcore, hbraced, hleaves => by
      rw [Stmt.Sound]
      rw [Stmt.checks] at h
      rw [Stmt.isCore] at hcore
      rw [Stmt.isBraced] at hbraced
      rw [Stmt.leaves] at hleaves
      have hsound := body list h.append.1.cons.2 hcore hbraced hleaves
      rwa [names_enter] at hsound
  | .ifElse e thenBranch none, table, h, hcore, hbraced, hleaves => by
      rw [Stmt.checks] at h
      rw [Stmt.isCore, Bool.and_eq_true] at hcore
      rw [Stmt.isBraced, Bool.and_eq_true, List.isEmpty_iff] at hbraced
      rw [Stmt.leaves, List.forall_mem_append, List.forall_mem_append] at hleaves
      obtain ⟨hcondition, hthen⟩ := h.append
      have hthenSound := stmt thenBranch hthen hcore.2 hbraced.2 hleaves.2.1
      rw [names_run_condition] at hthenSound
      rw [Stmt.Sound]
      exact ⟨hcondition.condition hcore.1 hleaves.1, hbraced.1, hthenSound⟩
  | .ifElse e thenBranch (some elseBranch), table, h, hcore, hbraced, hleaves => by
      rw [Stmt.checks] at h
      rw [Stmt.isCore, Bool.and_eq_true, Bool.and_eq_true] at hcore
      simp only [Stmt.isBraced, Bool.and_eq_true, List.isEmpty_iff] at hbraced
      rw [Stmt.leaves, List.forall_mem_append, List.forall_mem_append] at hleaves
      obtain ⟨hfront, helse⟩ := h.append
      obtain ⟨hcondition, hthen⟩ := hfront.append
      have hthenSound := stmt thenBranch hthen hcore.1.2 hbraced.1.2 hleaves.2.1
      have helseSound := stmt elseBranch helse hcore.2 hbraced.2.2 hleaves.2.2
      rw [SymbolTable.run_append, names_run_stmt hthen hcore.1.2 hbraced.1.2, hbraced.1.1] at helseSound
      rw [names_run_condition] at hthenSound helseSound
      rw [Stmt.Sound]
      exact ⟨hcondition.condition hcore.1.1 hleaves.1, ⟨hbraced.1.1, hthenSound⟩, hbraced.2.1,
        helseSound⟩
  | .whileLoop e body, table, h, hcore, hbraced, hleaves => by
      rw [Stmt.checks] at h
      rw [Stmt.isCore, Bool.and_eq_true] at hcore
      rw [Stmt.isBraced, Bool.and_eq_true, List.isEmpty_iff] at hbraced
      rw [Stmt.leaves, List.forall_mem_append] at hleaves
      obtain ⟨hcondition, hbody⟩ := h.append
      have hsound := stmt body hbody hcore.2 hbraced.2 hleaves.2
      rw [names_run_condition] at hsound
      rw [Stmt.Sound]
      exact ⟨hcondition.condition hcore.1 hleaves.1, hbraced.1, hsound⟩
  | .forLoop (some (.declare decl)) (some e) update body, table, h, hcore, hbraced, hleaves => by
      rw [Stmt.checks] at h
      simp only [Stmt.isCore, Bool.and_eq_true, decide_eq_true_eq] at hcore
      obtain ⟨⟨⟨⟨⟨hinit, hint⟩, htest⟩, hbound⟩, hupdate⟩, hbodyCore⟩ := hcore
      rw [Stmt.isBraced, Bool.and_eq_true, List.isEmpty_iff] at hbraced
      simp only [Stmt.leaves, List.forall_mem_append, branchLeaves, optionLeaves] at hleaves
      obtain ⟨⟨hdeclLeaves, htestLeaves, hupdateLeaves⟩, hbodyLeaves⟩ := hleaves
      have hheaderChecks : headerChecks (some e) update =
          Conditional.forLoop.checks e ++ update.flatMap Expr.checks := by
        rw [headerChecks, Option.toList_some, List.flatMap_singleton]
      rw [hheaderChecks] at h
      obtain ⟨hfront, hbody⟩ := h.append.1.cons.2.append
      obtain ⟨hdeclare, hheader⟩ := hfront.append
      obtain ⟨hcondition, hchanges⟩ := hheader.append
      have hnames := names_run_stmt hdeclare (by rwa [Stmt.isCore]) rfl
      rw [names_enter, Stmt.declared, List.singleton_append] at hnames
      have hdecl := hdeclare.declaration hinit hdeclLeaves
      have htestSound := hcondition.condition htest htestLeaves
      have hchangesSound := hchanges.effects hupdate hupdateLeaves
      have hbodySound := stmt body hbody hbodyCore hbraced.2 hbodyLeaves
      rw [SymbolTable.run_append, SymbolTable.run_append, names_run_effects] at hbodySound
      rw [names_run_condition, hnames] at hchangesSound hbodySound
      rw [hnames] at htestSound
      rw [names_enter] at hdecl
      rw [Stmt.Sound]
      exact ⟨hdecl, hint, htestSound, hbound, hchangesSound, hbraced.1, hbodySound⟩
  | .print .println [e] position, table, h, hcore, _, hleaves => by
      rw [Stmt.checks, List.flatMap_cons, List.flatMap_nil, List.append_nil] at h
      simp only [Stmt.isCore, Bool.or_eq_true, decide_eq_true_eq] at hcore
      rw [Stmt.leaves, List.flatMap_cons, List.flatMap_nil, List.append_nil] at hleaves
      rw [Stmt.Sound]
      rcases hcore with htyped | htyped
      · exact ⟨_, .inl rfl, (h.expr htyped hleaves).1⟩
      · exact ⟨_, .inr rfl, (h.expr htyped hleaves).1⟩
  | .empty, _, _, _, _, _ => by
      rw [Stmt.Sound]
      trivial

theorem body : (list : List Stmt) → ∀ {table : SymbolTable},
    CoreWalk types table (bodyChecks none list) → Stmt.allCore types list = true →
    Stmt.allBraced list = true → (∀ leaf ∈ allLeaves list, PortableLeaf leaf) →
    Stmt.soundAll types list table.names
  | [], _, _, _, _, _ => by
      rw [Stmt.soundAll]
      trivial
  | first :: rest, table, h, hcore, hbraced, hleaves => by
      rw [bodyChecks] at h
      rw [Stmt.allCore, Bool.and_eq_true] at hcore
      rw [Stmt.allBraced, Bool.and_eq_true] at hbraced
      rw [allLeaves, List.forall_mem_append] at hleaves
      obtain ⟨hfirst, hrest⟩ := h.append
      have hmore := body rest hrest hcore.2 hbraced.2 hleaves.2
      rw [names_run_stmt hfirst hcore.1 hbraced.1] at hmore
      rw [Stmt.soundAll]
      exact ⟨stmt first hfirst hcore.1 hbraced.1 hleaves.1, hmore⟩

end

end Statements

end CoreWalk

end MiniJava
