import MiniJava.Proofs.Diagnostics.Typed
import MiniJava.Proofs.Grammar.ProgramSound
import MiniJava.Proofs.Scope.Cells

/-!
# Writes of final variables

A write of a final variable is reported if the variable has been assigned when the checker comes
upon the write. It counts as assigned behind the assigned value, so an assignment that stands in
this value passes as well, and nothing else does.
-/

namespace MiniJava

structure Symbol.Spent (symbol : Symbol) : Prop where
  constant : symbol.constant = true
  initialized : symbol.initialized = true

theorem Symbol.Spent.marked {symbol : Symbol} (h : symbol.Spent) : symbol.marked.Spent :=
  ⟨h.constant, rfl⟩

def Check.written? : Check → Option String
  | .begins target _ _ _ => some target
  | .steps target _ _ => some target
  | _ => none

def Check.declared? : Check → Option String
  | .declares _ name _ _ _ => some name
  | _ => none

namespace Program

/-- Check number `j` comes upon `name` as long as the scope of the declaration that check number `d`
makes is open, and the name resolves to this scope. -/
structure Means (program : Program) (name : String) (d j : Nat) : Prop where
  behind : d < j
  inScope : ∀ i, d < i → i ≤ j → (program.tableAt d).enclosing.length < (program.tableAt i).depth
  resolved : ∃ symbol,
    (program.tableAt j).resolve? name = some ((program.tableAt d).enclosing.length, symbol)

instance (program : Program) (name : String) (d j : Nat) : Decidable (program.Means name d j) :=
  decidable_of_iff (d < j ∧
      (∀ i < j + 1, d < i →
        (program.tableAt d).enclosing.length < (program.tableAt i).depth) ∧
      ((program.tableAt j).resolve? name).map Prod.fst = some (program.tableAt d).enclosing.length)
    ⟨fun ⟨hbehind, hscope, hresolved⟩ =>
        ⟨hbehind, fun i hi hij => hscope i (Nat.lt_succ_of_le hij) hi, by simp_all⟩,
      fun h => ⟨h.behind, fun i hij hi => h.inScope i hi (Nat.le_of_lt_succ hij), by
        obtain ⟨symbol, hsymbol⟩ := h.resolved
        rw [hsymbol]
        rfl⟩⟩

/-- Check number `j` judges a write of the variable that check number `d` declares. -/
def Writes (program : Program) (d j : Nat) : Prop :=
  ∃ name ∈ program.checks[d]?.bind Check.declared?,
    program.checks[j]?.bind Check.written? = some name ∧ program.Means name d j

instance (program : Program) (d j : Nat) : Decidable (program.Writes d j) :=
  inferInstanceAs (Decidable (∃ name ∈ program.checks[d]?.bind Check.declared?, _))

end Program

/-- A check keeps a cell whose scope stays open, except that it may mark it. -/
theorem Check.cell?_after {table : SymbolTable} {number : Nat} {name : String} {symbol : Symbol}
    (h : table.cell? number name = some symbol) (c : Check)
    (hopen : number < (c.after table).depth) : (c.after table).cell? number name = some symbol ∨
      (c.after table).cell? number name = some symbol.marked := by
  rw [Check.after_eq] at hopen ⊢
  cases c with
  | enter => exact .inl (SymbolTable.cell?_enter h)
  | leave => exact .inl ((SymbolTable.cell?_leave hopen).trans h)
  | declares type other position initialized constant => exact .inl (SymbolTable.cell?_bring h ..)
  | stores target op value position => exact SymbolTable.cell?_markInitialized h target
  | _ => exact .inl h

namespace Program

variable {program : Program} {number : Nat} {name : String} {P : Symbol → Prop}

/-- What holds of a cell, marked or not, holds of it as long as its scope stays open. -/
theorem cell?_kept (hmarked : ∀ symbol, P symbol → P symbol.marked) {i j : Nat} (hle : i ≤ j)
    (hopen : ∀ m, i < m → m ≤ j → number < (program.tableAt m).depth)
    (h : ∃ symbol, (program.tableAt i).cell? number name = some symbol ∧ P symbol) :
    ∃ symbol, (program.tableAt j).cell? number name = some symbol ∧ P symbol := by
  induction hle with
  | refl => exact h
  | @step j hle ih =>
      obtain ⟨symbol, hcell, hP⟩ := ih fun m hm hmj => hopen m hm (Nat.le_succ_of_le hmj)
      have hnext := hopen (j + 1) (Nat.lt_succ_of_le hle) (Nat.le_refl _)
      cases hc : program.checks[j]? with
      | none => exact ⟨symbol, tableAt_succ_of_none hc ▸ hcell, hP⟩
      | some c =>
          rw [tableAt_succ hc] at hnext ⊢
          obtain hsame | hmark := Check.cell?_after hcell c hnext
          · exact ⟨symbol, hsame, hP⟩
          · exact ⟨symbol.marked, hmark, hmarked symbol hP⟩

end Program

/-- The checks of an assigned value and then the store stand behind each begun assignment. -/
def Bracketed (checks : List Check) : Prop :=
  ∀ i target op value position, checks[i]? = some (.begins target op value position) →
    value.checks ++ [.stores target op value position] <+: checks.drop (i + 1)

theorem bracketed_alone {c : Check} (hplain : ∀ target op value position,
    c ≠ .begins target op value position) : Bracketed [c] := by
  intro i target op value position h
  cases i with
  | zero => exact absurd (Option.some.inj h) (hplain target op value position)
  | succ i => cases h

theorem Bracketed.append {checks more : List Check} (h : Bracketed checks)
    (hmore : Bracketed more) : Bracketed (checks ++ more) := by
  intro i target op value position hi
  by_cases hlt : i < checks.length
  · rw [List.getElem?_append_left hlt] at hi
    rw [List.drop_append_of_le_length hlt]
    exact (h i target op value position hi).trans (List.prefix_append ..)
  · rw [List.getElem?_append_right (Nat.le_of_not_lt hlt)] at hi
    have hdrop := hmore _ target op value position hi
    rw [List.drop_append, List.drop_of_length_le (by omega), List.nil_append,
      Nat.sub_add_comm (Nat.le_of_not_lt hlt)]
    exact hdrop

theorem Arranged.bracketed {checks : List Check} (h : Arranged checks) : Bracketed checks := by
  induction h with
  | nil => exact nofun
  | append _ _ ih ihmore => exact ih.append ihmore
  | alone hoperands hplain => exact bracketed_alone (by rintro _ _ _ _ rfl; cases hplain)
  | behind _ hoperands hplain ih =>
      exact ih.append (bracketed_alone (by rintro _ _ _ _ rfl; cases hplain))
  | applies op _ _ ihl ihr => exact (ihl.append ihr).append (bracketed_alone (by simp))
  | @assigns value target op position _ ih =>
      intro i other otherOp otherValue otherPosition hi
      cases i with
      | zero =>
          cases hi
          exact List.prefix_rfl
      | succ i => exact (ih.append (bracketed_alone (by simp))) i _ _ _ _ hi

namespace Program

/-- The store of an assignment stands behind the checks of its value. -/
theorem stores_behind {program : Program} {i : Nat} {target : String} {op : Option BinaryOp}
    {value : Expr} {position : Position}
    (h : program.checks[i]? = some (.begins target op value position)) :
    program.checks[i + 1 + value.checks.length]? = some (.stores target op value position) ∧
      program.tableAt (i + 1 + value.checks.length) = (program.tableAt i).run value.checks := by
  have hbracketed := (Arranged.composed.program program).bracketed
  obtain ⟨rest, hrest⟩ := hbracketed i target op value position h
  have htable : program.tableAt (i + 1) = program.tableAt i := by
    rw [tableAt_succ h, Check.after_eq]
  refine ⟨?_, ?_⟩
  · rw [← List.getElem?_drop, ← hrest, List.append_assoc, List.getElem?_append_right (Nat.le_refl _),
      Nat.sub_self]
    rfl
  · rw [tableAt, List.take_add, SymbolTable.run_append, ← hrest, List.append_assoc,
      List.take_left]
    exact congrArg (·.run value.checks) htable

/-- A write of a final variable is a plain assignment to one that has not been assigned. -/
theorem plain_of_writes {program : Program} (h : program.diagnostics = []) {j : Nat} {c : Check}
    {name : String} (hc : program.checks[j]? = some c) (hname : c.written? = some name)
    {number : Nat} {symbol : Symbol}
    (hresolve : (program.tableAt j).resolve? name = some (number, symbol))
    (hfinal : symbol.constant = true) : symbol.initialized = false ∧
      ∃ value position, c = .begins name none value position := by
  have hlookup : (program.tableAt j).lookup? name = some symbol := by
    rw [SymbolTable.lookup?, hresolve]
    rfl
  have hpasses := passes_at h hc
  cases c with
  | begins target op value position =>
      obtain rfl := Option.some.inj hname
      obtain ⟨found, hfound, hconstant, hread⟩ := Check.passes_begins.mp hpasses
      obtain rfl := Option.some.inj (hlookup.symm.trans hfound)
      have hinitialized := hconstant hfinal
      cases op with
      | none => exact ⟨hinitialized, value, position, rfl⟩
      | some op => exact absurd (hread rfl) (by simp [hinitialized])
  | steps target op position =>
      obtain rfl := Option.some.inj hname
      obtain ⟨found, hfound, -, hconstant, -⟩ := Check.passes_steps.mp hpasses
      obtain rfl := Option.some.inj (hlookup.symm.trans hfound)
      exact absurd hfinal (by simp [hconstant])
  | _ => cases hname

section Declared

variable {program : Program} {d : Nat} {type : TypeName} {name : String} {position : Position}
  {initialized constant : Bool}

theorem exists_of_writes
    (hd : program.checks[d]? = some (.declares type name position initialized constant)) {j : Nat}
    (hj : program.Writes d j) : ∃ c, program.checks[j]? = some c ∧ c.written? = some name ∧
      program.Means name d j := by
  obtain ⟨declared, hdeclared, hwritten, hmeans⟩ := hj
  rw [hd] at hdeclared
  obtain rfl := Option.some.inj hdeclared
  obtain ⟨c, hc, hname⟩ := Option.bind_eq_some_iff.mp hwritten
  exact ⟨c, hc, hname, hmeans⟩

/-- The declaration is the cell of its name in its scope. -/
theorem cell?_declared (h : program.diagnostics = [])
    (hd : program.checks[d]? = some (.declares type name position initialized constant)) :
    (program.tableAt (d + 1)).cell? (program.tableAt d).enclosing.length name =
      some ⟨.ofTypeName type, position, initialized, constant⟩ := by
  rw [tableAt_succ hd, Check.after_eq]
  exact SymbolTable.cell?_bring_self (Check.passes_declares.mp (passes_at h hd)) _

/-- Once a final variable has been assigned, no write of it passes. -/
theorem writes_before_spent (h : program.diagnostics = [])
    (hd : program.checks[d]? = some (.declares type name position initialized constant)) {e : Nat}
    (he : d < e) (hspent : ∃ symbol,
      (program.tableAt e).cell? (program.tableAt d).enclosing.length name = some symbol ∧
        symbol.Spent) {j : Nat} (hj : program.Writes d j) : j < e := by
  obtain ⟨c, hc, hname, hmeans⟩ := exists_of_writes hd hj
  obtain ⟨resolved, hresolved⟩ := hmeans.resolved
  refine Nat.lt_of_not_le fun hle => ?_
  obtain ⟨symbol, hcell, hconstant, hinitialized⟩ := cell?_kept (fun _ h => h.marked) hle
    (fun m hm => hmeans.inScope m (Nat.lt_trans he hm)) hspent
  obtain rfl := Option.some.inj (hcell.symm.trans (SymbolTable.cell?_of_resolve? hresolved))
  have hfresh := (plain_of_writes h hc hname hresolved hconstant).1
  exact absurd hinitialized (by simp [hfresh])

end Declared

/-- In a clean program nothing writes a final variable that its declaration gives a value, as that
of a field always does. Of two writes of any other final variable the first is a plain assignment,
and the second stands in the value that it assigns. -/
theorem finals_written_once (program : Program) (h : program.diagnostics = []) {d : Nat}
    {type : TypeName} {name : String} {position : Position} {initialized : Bool}
    (hd : program.checks[d]? = some (.declares type name position initialized true)) :
    (initialized = true → ∀ j, ¬program.Writes d j) ∧
      ∀ i j, i < j → program.Writes d i → program.Writes d j → ∃ value position,
        program.checks[i]? = some (.begins name none value position) ∧
          j ≤ i + value.checks.length := by
  have hcell := cell?_declared h hd
  refine ⟨fun hinitialized j hj => ?_, fun i j hij hi hj => ?_⟩
  · obtain ⟨-, -, -, hmeans⟩ := exists_of_writes hd hj
    have hbefore := writes_before_spent h hd (Nat.lt_succ_self d)
      ⟨_, hcell, rfl, hinitialized⟩ hj
    have hbehind := hmeans.behind
    omega
  · obtain ⟨c, hc, hname, hmeans⟩ := exists_of_writes hd hi
    obtain ⟨found, hresolved⟩ := hmeans.resolved
    obtain ⟨kept, hkept, hconstant⟩ := cell?_kept (P := fun symbol => symbol.constant = true)
      (fun _ h => h) hmeans.behind
      (fun m hm => hmeans.inScope m (Nat.lt_of_succ_lt hm)) ⟨_, hcell, rfl⟩
    obtain rfl := Option.some.inj (hkept.symm.trans (SymbolTable.cell?_of_resolve? hresolved))
    obtain ⟨-, value, valuePosition, rfl⟩ := plain_of_writes h hc hname hresolved hconstant
    refine ⟨value, valuePosition, hc, Nat.le_of_not_lt fun hlate => ?_⟩
    obtain ⟨hstore, htable⟩ := stores_behind hc
    obtain ⟨c, hc, hwritten, hmeansLate⟩ := exists_of_writes hd hj
    have hbehind := hmeans.behind
    -- The store marks the cell that the assignment was begun with.
    have hspent : ∃ symbol, (program.tableAt (i + 1 + value.checks.length + 1)).cell?
        (program.tableAt d).enclosing.length name = some symbol ∧ symbol.Spent := by
      obtain ⟨stored, hstored⟩ := SymbolTable.exists_resolve?_of_bare
        ((congrArg SymbolTable.bare htable).trans (SymbolTable.run_expr_bare _ value)) hresolved
      obtain ⟨kept, hkept, hconstant⟩ := cell?_kept (P := fun symbol => symbol.constant = true)
        (fun _ h => h) (j := i + 1 + value.checks.length) (by omega)
        (fun m hm hmj => hmeansLate.inScope m (by omega) (by omega)) ⟨_, hcell, rfl⟩
      obtain rfl := Option.some.inj (hkept.symm.trans (SymbolTable.cell?_of_resolve? hstored))
      rw [tableAt_succ hstore, Check.after_eq]
      exact ⟨_, SymbolTable.cell?_markInitialized_self hstored, hconstant, rfl⟩
    have hbefore := writes_before_spent h hd (by omega) hspent hj
    have hne : j ≠ i + 1 + value.checks.length := by
      rintro rfl
      obtain rfl := Option.some.inj (hstore.symm.trans hc)
      cases hwritten
    omega

/-- The variable and the constant are each given their value once. -/
theorem finals_written_once_later :
    ∃ program, ofSource "final int x; x = 1; final int y = x;" = .ok program ∧
      program.Writes 0 1 ∧ (∀ j, ¬program.Writes 5 j) ∧
      ∀ i j, i < j → program.Writes 0 i → program.Writes 0 j → ∃ value position,
        program.checks[i]? = some (.begins "x" none value position) ∧
          j ≤ i + value.checks.length := by
  obtain ⟨program, hsource, hclean, hx, hy, hwrites⟩ := exists_program
    "final int x; x = 1; final int y = x;" (fun program => program.diagnostics = [] ∧
      program.checks[0]? = some (.declares ⟨"int", 0⟩ "x" ⟨1, 11⟩ false true) ∧
      program.checks[5]? = some (.declares ⟨"int", 0⟩ "y" ⟨1, 31⟩ true true) ∧
      program.Writes 0 1) (by decide +kernel)
  exact ⟨program, hsource, hwrites, (finals_written_once program hclean hy).1 rfl,
    (finals_written_once program hclean hx).2⟩

/-- Both assignments to the final variable pass. -/
theorem final_written_in_own_value :
    ∃ program, ofSource "final int x; x = (x = 1);" = .ok program ∧ program.diagnostics = [] ∧
      program.checks[0]? = some (.declares ⟨"int", 0⟩ "x" ⟨1, 11⟩ false true) ∧
      program.Writes 0 1 ∧ program.Writes 0 2 :=
  exists_program _ _ (by decide +kernel)

end Program

end MiniJava
