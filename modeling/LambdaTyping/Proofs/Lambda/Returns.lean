import LambdaTyping.Lambda.Returns
import LambdaTyping.Proofs.Lambda.Checker
import LambdaTyping.Proofs.Lambda.Execution
import LambdaTyping.Table.Platform

/-!
# What the return check decides

The statements of a tree have an order, that of the text (`Stmt.preorder`). A block is checked
against a result type by its `return` statements in this order: the first value whose type is known
and not assignable is reported, and only where there is none a missing value
(`checkReturn_decides`). The check asks for the type of each value under the guard that it is given,
so it finds the same with any other typing that answers alike under this guard
(`gives_checkReturnGuarded_congr`).
-/

namespace LambdaTyping

namespace Stmt

/-- The statements that a statement is made of, in the order of the text. -/
def children : Stmt → List Stmt
  | .ifThen body => body
  | .ifThenElse thenBody elseBody => thenBody ++ elseBody
  | .block body => body
  | .sync body => body
  | .loop _ body _ => body
  | .labeled _ body => [body]
  | .switch arms _ _ => arms.flatten
  | .tryCatch body catches => body ++ catches.flatten
  | .tryFinally body catches finalizer => body ++ catches.flatten ++ finalizer
  | .ret _ | .expr _ | .throw | .brk _ | .cont _ | .other => []

/-- The children of a statement are the statements of its blocks. -/
lemma mem_children_iff {s u : Stmt} : u ∈ s.children ↔ ∃ ss ∈ s.blocks, u ∈ ss := by
  cases s with
  | tryFinally body catches finalizer => simp [children, blocks, or_comm]
  | _ => simp [children, blocks]

/-- A child is smaller than the statement. -/
lemma sizeOf_lt_of_mem_children {s u : Stmt} (h : u ∈ s.children) : sizeOf u < sizeOf s := by
  obtain ⟨ss, hss, hu⟩ := mem_children_iff.1 h
  exact sizeOf_lt_of_mem_blocks hss hu

/-- The statements that occur in a statement, the statement itself first, in the order of the text.
-/
def preorder (s : Stmt) : List Stmt :=
  s :: s.children.attach.flatMap fun ⟨u, _h⟩ => u.preorder
termination_by sizeOf s
decreasing_by exact sizeOf_lt_of_mem_children _h

/-- The statements that occur in some statements, in the order of the text. -/
def preorderOf (ss : List Stmt) : List Stmt :=
  ss.flatMap preorder

/-- In the order of the text a statement comes before what it is made of. -/
lemma preorder_eq (s : Stmt) : s.preorder = s :: preorderOf s.children := by
  rw [preorder, preorderOf]
  conv_rhs => rw [← List.attach_map_subtype_val s.children, List.flatMap_map]

/-- There are no statements in none. -/
@[simp] lemma preorderOf_nil : preorderOf [] = [] := rfl

/-- The first statement and what it is made of come before the others. -/
@[simp] lemma preorderOf_cons (s : Stmt) (ss : List Stmt) :
    preorderOf (s :: ss) = s :: (preorderOf s.children ++ preorderOf ss) := by
  rw [preorderOf, List.flatMap_cons, preorder_eq]
  rfl

/-- The results of a sequence are those of its statements, one after the other. -/
@[simp] lemma returnsOf_eq (ss : List Stmt) : returnsOf ss = ss.flatMap returns := by
  induction ss with
  | nil => rfl
  | cons s ss ih => simp [returnsOf, ih]

/-- The results of the arms are those of their statements, one after the other. -/
@[simp] lemma returnsOfArms_eq (arms : List (List Stmt)) :
    returnsOfArms arms = arms.flatten.flatMap returns := by
  induction arms with
  | nil => rfl
  | cons arm arms ih => simp [returnsOfArms, ih]

/-- The value, or its absence, of a `return` statement. -/
def returnValue? : Stmt → Option (Option Expr)
  | .ret value => some value
  | _ => none

/-- Only a `return` statement has a return value or lacks one. -/
lemma returnValue?_eq_some_iff {s : Stmt} {value : Option Expr} :
    s.returnValue? = some value ↔ s = .ret value := by
  cases s <;> simp [returnValue?]

/-- The results of a statement are its own and then those of its children. -/
lemma returns_eq (s : Stmt) :
    s.returns = s.returnValue?.toList ++ s.children.flatMap returns := by
  cases s <;> simp [returns, returnValue?, children]

/-- The `return` statements of a statement, found form by form, are those that a walk through the
text meets. -/
lemma returns_eq_preorder (s : Stmt) : s.returns = s.preorder.filterMap returnValue? := by
  induction s using rec_blocks with
  | step s ih =>
    have parts : s.children.flatMap returns = (preorderOf s.children).filterMap returnValue? := by
      rw [preorderOf, List.filterMap_flatMap]
      refine List.flatMap_congr fun u hu => ?_
      obtain ⟨ss, hss, hu⟩ := mem_children_iff.1 hu
      exact ih ss hss u hu
    rw [returns_eq, parts, preorder_eq, List.filterMap_cons]
    cases s.returnValue? with
    | none => rfl
    | some value => rfl

/-- The results of statements are those of the `return` statements in the order of the text. -/
lemma returnsOf_eq_preorderOf (ss : List Stmt) :
    returnsOf ss = (preorderOf ss).filterMap returnValue? := by
  rw [returnsOf_eq, preorderOf, List.filterMap_flatMap]
  exact List.flatMap_congr fun s _ => returns_eq_preorder s

/-- The value that a `return` statement returns. -/
def returned? (s : Stmt) : Option Expr :=
  s.returnValue?.join

/-- A value is returned by the `return` statement that holds it. -/
@[simp] lemma returned?_eq_some_iff {s : Stmt} {e : Expr} :
    s.returned? = some e ↔ s = .ret (some e) := by
  rw [returned?, Option.join_eq_some_iff, returnValue?_eq_some_iff]

end Stmt

namespace Body

variable {body : List Stmt}

/-- The values of a block are those of its `return` statements in the order of the text. -/
lemma results_block : (block body).results = (Stmt.preorderOf body).filterMap Stmt.returned? := by
  rw [results, Stmt.returnsOf_eq_preorderOf, List.filterMap_filterMap]
  rfl

/-- A value of a block is one that it returns. -/
lemma mem_results_block {e : Expr} :
    e ∈ (block body).results ↔ .ret (some e) ∈ Stmt.preorderOf body := by
  simp [results_block]

/-- A block has no values if it returns none. -/
lemma isEmpty_results_block :
    (block body).results.isEmpty = true ↔ ∀ e, .ret (some e) ∉ Stmt.preorderOf body := by
  rw [List.isEmpty_iff, List.eq_nil_iff_forall_not_mem]
  exact forall_congr' fun e => not_congr mem_results_block

/-- Some `return` has no value if there are more of them than values. -/
lemma results_lt_returns_iff :
    (block body).results.length < (block body).returns.length ↔
      .ret none ∈ Stmt.preorderOf body := by
  rw [results, returns, List.length_filterMap_lt_length_iff_exists, Stmt.returnsOf_eq_preorderOf]
  simp [Stmt.returnValue?_eq_some_iff]

end Body

namespace Lambda

variable {ps : ParamList} {body : List Stmt}

/-- A block that returns a value does not fit a method without a result. -/
lemma voidCompatible_ofBlock :
    (ofBlock ps body).voidCompatible = true ↔ ∀ e, .ret (some e) ∉ Stmt.preorderOf body := by
  rw [ofBlock, List.all_eq_true, ← Body.isEmpty_results_block, Body.results, List.isEmpty_iff,
    List.filterMap_eq_nil_iff]
  simp

/-- A block without a value can be used where none is expected. -/
lemma isEmpty_and_not_voidCompatible :
    ((ofBlock ps body).body.results.isEmpty && !(ofBlock ps body).voidCompatible) = false := by
  by_cases none : ∀ e, .ret (some e) ∉ Stmt.preorderOf body
  · rw [voidCompatible_ofBlock.2 none]
    exact Bool.and_false _
  · have some : (Body.block body).results.isEmpty = false :=
      Bool.eq_false_iff.2 fun h => none (Body.isEmpty_results_block.1 h)
    exact Bool.and_eq_false_imp.2 fun h => nomatch some.symm.trans h

/-- A block misses a value if it returns without one or can be run off its end. -/
lemma missesValue_ofBlock :
    (ofBlock ps body).missesValue = true ↔
      .ret none ∈ Stmt.preorderOf body ∨ (Body.block body).completes = true := by
  rw [missesValue, isEmpty_and_not_voidCompatible, Bool.or_false, Bool.or_eq_true,
    decide_eq_true_iff]
  exact or_congr_left Body.results_lt_returns_iff

/-- An expression misses no value. -/
lemma missesValue_ofExpression {e : Expr} : (ofExpression ps e).missesValue = false := rfl

end Lambda

/-- The typing answers every question under the guard, with these types, and leaves the guard as it
is. -/
def ExprTyping.Answers (typing : ExprTyping) (g : RecursionGuard) (types : ExprId → Option Ty) :
    Prop :=
  ∀ e, (typing e g).Gives (types e, g)

/-- The typing that looks the types of expressions up. -/
def ExprTyping.ofTypes (types : ExprId → Option Ty) : ExprTyping := fun e =>
  RecursionGuard.compute e (return types e)

/-- A typing that looks types up answers every question, save that it types nothing within
itself. -/
lemma ExprTyping.answers_ofTypes (types : ExprId → Option Ty) (g : RecursionGuard) :
    (ofTypes types).Answers g fun e => if g.isActive e then none else types e := by
  intro e
  dsimp only
  rw [ofTypes, RecursionGuard.compute]
  split
  · exact Query.gives_bind_iff.2 ⟨(), Query.gives_report_iff.2 trivial, Query.gives_pure_iff.2 rfl⟩
  · refine Query.gives_bind_iff.2 ⟨_, Query.gives_pure_iff.2 rfl, Query.gives_pure_iff.2 ?_⟩
    rw [RecursionGuard.enter, RecursionGuard.leave, List.erase_cons_head]

namespace ClassTable

/-- The type of the value, where there is one, is assignable to the result type. -/
def Fits (t : ClassTable) (types : ExprId → Option Ty) (expected : Ty) (e : Expr) : Prop :=
  ∀ found, types e.id = some found → (t.assignable found expected).Gives true

/-- The type of the value is not assignable to the result type. -/
def Misfit (t : ClassTable) (types : ExprId → Option Ty) (expected : Ty) (e : Expr) (found : Ty) :
    Prop :=
  types e.id = some found ∧ (t.assignable found expected).Gives false

/-- What is wrong with a block that is to return values of a type: the first value in the text that
does not fit, or else that some way out of the block has no value. -/
inductive BlockVerdict (t : ClassTable) (types : ExprId → Option Ty) (expected : Ty)
    (body : List Stmt) : Option ReturnMismatch → Prop where
  | badType {before e after found} :
    Stmt.preorderOf body = before ++ .ret (some e) :: after →
    (∀ v, .ret (some v) ∈ before → t.Fits types expected v) →
    t.Misfit types expected e found →
    BlockVerdict t types expected body (some (.badType (some found) expected))
  | missingValue :
    (∀ v, .ret (some v) ∈ Stmt.preorderOf body → t.Fits types expected v) →
    .ret none ∈ Stmt.preorderOf body ∨ (Body.block body).completes = true →
    BlockVerdict t types expected body (some .missingValue)
  | fits :
    (∀ v, .ret (some v) ∈ Stmt.preorderOf body → t.Fits types expected v) →
    ¬(.ret none ∈ Stmt.preorderOf body ∨ (Body.block body).completes = true) →
    BlockVerdict t types expected body none

section Answered

variable {t : ClassTable} {typing : ExprTyping} {g : RecursionGuard} {types : ExprId → Option Ty}
  {expected : Ty}

/-- What a walk through some values finds: the first that does not fit. -/
inductive FirstMisfit (t : ClassTable) (types : ExprId → Option Ty) (expected : Ty) :
    List Expr → Option ReturnMismatch → Prop where
  | nil :
    FirstMisfit t types expected [] none
  | here {e es found} :
    t.Misfit types expected e found →
    FirstMisfit t types expected (e :: es) (some (.badType (some found) expected))
  | later {e es m} :
    t.Fits types expected e →
    FirstMisfit t types expected es m →
    FirstMisfit t types expected (e :: es) m

/-- A value of unknown type is no misfit, so the walk goes on. -/
lemma firstMisfit_cons_of_unknown {e : Expr} {es : List Expr} {m : Option ReturnMismatch}
    (unknown : types e.id = none) :
    t.FirstMisfit types expected (e :: es) m ↔ t.FirstMisfit types expected es m := by
  constructor
  · intro h
    cases h with
    | here misfit => cases unknown.symm.trans misfit.1
    | later _ h => exact h
  · refine .later fun found known => ?_
    cases unknown.symm.trans known

/-- A value of known type ends the walk if it does not fit, and otherwise the walk goes on. -/
lemma firstMisfit_cons_of_known {e : Expr} {es : List Expr} {m : Option ReturnMismatch} {found : Ty}
    (known : types e.id = some found) :
    t.FirstMisfit types expected (e :: es) m ↔
      (t.assignable found expected).Gives true ∧ t.FirstMisfit types expected es m ∨
        (t.assignable found expected).Gives false ∧
          m = some (.badType (some found) expected) := by
  constructor
  · intro h
    cases h with
    | here misfit =>
      cases known.symm.trans misfit.1
      exact .inr ⟨misfit.2, rfl⟩
    | later fits h => exact .inl ⟨fits found known, h⟩
  · rintro (⟨fits, h⟩ | ⟨misfits, rfl⟩)
    · refine .later (fun found' known' => ?_) h
      cases known.symm.trans known'
      exact fits
    · exact .here ⟨known, misfits⟩

/-- The first bad result is the first misfit, and to find it leaves the guard as it is. -/
lemma gives_firstBadResult_iff (answers : typing.Answers g types) {es : List Expr}
    {m : Option ReturnMismatch} {g' : RecursionGuard} :
    (t.firstBadResult typing expected es g).Gives (m, g') ↔
      t.FirstMisfit types expected es m ∧ g' = g := by
  induction es with
  | nil =>
    refine Query.gives_pure_iff.trans ⟨?_, ?_⟩
    · rintro ⟨⟩
      exact ⟨.nil, rfl⟩
    · rintro ⟨⟨⟩, rfl⟩
      rfl
  | cons e es ih =>
    refine (Query.gives_bind_of_gives (answers e.id)).trans ?_
    cases known : types e.id with
    | none => exact ih.trans (and_congr_left' (firstMisfit_cons_of_unknown known).symm)
    | some found =>
      rw [firstMisfit_cons_of_known known]
      constructor
      · intro h
        obtain ⟨⟨fits, g''⟩, lifted, h⟩ := Query.gives_bind_iff.1 h
        obtain ⟨_, asked, given⟩ := Query.gives_bind_iff.1 lifted
        cases Query.gives_pure_iff.1 given
        cases fits with
        | true =>
          obtain ⟨rest, rfl⟩ := ih.1 h
          exact ⟨.inl ⟨asked, rest⟩, rfl⟩
        | false =>
          cases Query.gives_pure_iff.1 h
          exact ⟨.inr ⟨asked, rfl⟩, rfl⟩
      · have lift {fits : Bool} (asked : (t.assignable found expected).Gives fits) :
            ((liftM (t.assignable found expected) : GuardedQuery Bool) g).Gives (fits, g) :=
          Query.gives_bind_iff.2 ⟨_, asked, Query.gives_pure_iff.2 rfl⟩
        rintro ⟨⟨asked, rest⟩ | ⟨asked, rfl⟩, rfl⟩
        · exact Query.gives_bind_iff.2 ⟨_, lift asked, ih.2 ⟨rest, rfl⟩⟩
        · exact Query.gives_bind_iff.2 ⟨_, lift asked, Query.gives_pure_iff.2 rfl⟩

/-- A check against a result type finds the first value that does not fit or, if all fit, whether a
value is missing. -/
lemma gives_checkReturnGuarded_iff (answers : typing.Answers g types) (value : expected ≠ .void)
    {l : Lambda} {m : Option ReturnMismatch} {g' : RecursionGuard} :
    (t.checkReturnGuarded l (some expected) typing g).Gives (m, g') ↔
      (∃ found, t.FirstMisfit types expected l.body.results found ∧
        m = found.or (if l.missesValue then some .missingValue else none)) ∧ g' = g := by
  rw [checkReturnGuarded_of_ne_void value]
  constructor
  · intro h
    obtain ⟨⟨found, g''⟩, asked, h⟩ := Query.gives_bind_iff.1 h
    obtain ⟨first, rfl⟩ := (gives_firstBadResult_iff answers).1 asked
    cases found with
    | none =>
      cases Query.gives_pure_iff.1 h
      exact ⟨⟨_, first, rfl⟩, rfl⟩
    | some mismatch =>
      cases Query.gives_pure_iff.1 h
      exact ⟨⟨_, first, rfl⟩, rfl⟩
  · rintro ⟨⟨found, first, rfl⟩, rfl⟩
    refine (Query.gives_bind_of_gives ((gives_firstBadResult_iff answers).2 ⟨first, rfl⟩)).2 ?_
    cases found with
    | none => exact Query.gives_pure_iff.2 rfl
    | some mismatch => exact Query.gives_pure_iff.2 rfl

/-- A check of an expression against a method without a result asks for its type only if the
expression cannot stand as a statement. -/
lemma gives_checkReturnGuarded_void_expression_iff (answers : typing.Answers g types)
    {ps : ParamList} {e : Expr} {mark : Bool} {m : Option ReturnMismatch} {g' : RecursionGuard} :
    (t.checkReturnGuarded ⟨ps, .expression e, mark⟩ (some .void) typing g).Gives (m, g') ↔
      m = (if e.statementShaped then none else some (.badType (types e.id) .void)) ∧ g' = g := by
  have pure_iff (found : Option ReturnMismatch) :
      (pure (found, g) : Query _).Gives (m, g') ↔ m = found ∧ g' = g := by
    rw [Query.gives_pure_iff, Prod.mk.injEq, eq_comm, @eq_comm _ g]
  cases shaped : e.statementShaped with
  | true =>
    simp only [checkReturnGuarded, Lambda.checkVoid, shaped, if_true]
    exact pure_iff none
  | false =>
    simp only [checkReturnGuarded, Lambda.checkVoid, shaped, Bool.false_eq_true, if_false]
    exact (Query.gives_bind_of_gives (answers e.id)).trans (pure_iff _)

/-- Typings that answer alike under a guard let a check under the guard find the same. -/
lemma gives_checkReturnGuarded_congr {typing' : ExprTyping} (answers : typing.Answers g types)
    (answers' : typing'.Answers g types) {l : Lambda} {target : Option Ty}
    {m : Option ReturnMismatch} {g' : RecursionGuard} :
    (t.checkReturnGuarded l target typing g).Gives (m, g') ↔
      (t.checkReturnGuarded l target typing' g).Gives (m, g') := by
  match target with
  | none => exact Iff.rfl
  | some expected =>
    by_cases value : expected = .void
    · subst value
      obtain ⟨ps, body, mark⟩ := l
      cases body with
      | block body => exact Iff.rfl
      | expression e =>
        rw [gives_checkReturnGuarded_void_expression_iff answers,
          gives_checkReturnGuarded_void_expression_iff answers']
    · rw [gives_checkReturnGuarded_iff answers value, gives_checkReturnGuarded_iff answers' value]

/-- A check leaves the guard as it was. -/
lemma guard_eq_of_checkReturnGuarded (answers : typing.Answers g types) {l : Lambda}
    {target : Option Ty} {m : Option ReturnMismatch} {g' : RecursionGuard}
    (h : (t.checkReturnGuarded l target typing g).Gives (m, g')) : g' = g := by
  match target with
  | none =>
    cases Query.gives_pure_iff.1 h
    rfl
  | some expected =>
    by_cases value : expected = .void
    · subst value
      obtain ⟨ps, body, mark⟩ := l
      cases body with
      | block body =>
        cases Query.gives_pure_iff.1 h
        rfl
      | expression e => exact ((gives_checkReturnGuarded_void_expression_iff answers).1 h).2
    · exact ((gives_checkReturnGuarded_iff answers value).1 h).2

/-- There is no misfit if all values fit. -/
lemma firstMisfit_none_iff {es : List Expr} :
    t.FirstMisfit types expected es none ↔ ∀ e ∈ es, t.Fits types expected e := by
  induction es with
  | nil => exact iff_of_true .nil (by simp)
  | cons e es ih =>
    rw [List.forall_mem_cons, ← ih]
    constructor
    · intro h
      cases h with
      | later fits h => exact ⟨fits, h⟩
    · exact fun ⟨fits, h⟩ => .later fits h

/-- The first value returned in a text that does not fit splits the text in two. -/
lemma firstMisfit_some_iff {text : List Stmt} {m : ReturnMismatch} :
    t.FirstMisfit types expected (text.filterMap Stmt.returned?) (some m) ↔
      ∃ before e after found, text = before ++ .ret (some e) :: after ∧
        (∀ v, .ret (some v) ∈ before → t.Fits types expected v) ∧
        t.Misfit types expected e found ∧ m = .badType (some found) expected := by
  constructor
  · intro h
    -- By induction on the text: a statement that returns no value is passed over, and a value is
    -- the misfit or fits.
    induction text with
    | nil => cases h
    | cons s text ih =>
      cases value : s.returned? with
      | none =>
        rw [List.filterMap_cons_none value] at h
        obtain ⟨before, e, after, found, rfl, fits, misfit⟩ := ih h
        refine ⟨s :: before, e, after, found, rfl, fun v hv => ?_, misfit⟩
        rcases List.mem_cons.1 hv with rfl | hv
        · cases value
        · exact fits v hv
      | some e =>
        rw [List.filterMap_cons_some value] at h
        obtain rfl := Stmt.returned?_eq_some_iff.1 value
        cases h with
        | here misfit => exact ⟨[], e, text, _, rfl, by simp, misfit, rfl⟩
        | later fitsHere h =>
          obtain ⟨before, e', after, found, rfl, fits, misfit⟩ := ih h
          refine ⟨_ :: before, e', after, found, rfl, fun v hv => ?_, misfit⟩
          rcases List.mem_cons.1 hv with same | hv
          · cases same
            exact fitsHere
          · exact fits v hv
  · rintro ⟨before, e, after, found, rfl, fits, misfit, rfl⟩
    induction before with
    | nil => exact .here misfit
    | cons s before ih =>
      have rest := ih fun v hv => fits v (List.mem_cons_of_mem _ hv)
      cases value : s.returned? with
      | none => rwa [List.cons_append, List.filterMap_cons_none value]
      | some e' =>
        rw [List.cons_append, List.filterMap_cons_some value]
        obtain rfl := Stmt.returned?_eq_some_iff.1 value
        exact .later (fits e' List.mem_cons_self) rest

/-- There is no misfit among the results of a block if all values that it returns fit. -/
lemma firstMisfit_results_none_iff {body : List Stmt} :
    t.FirstMisfit types expected (Body.block body).results none ↔
      ∀ v, .ret (some v) ∈ Stmt.preorderOf body → t.Fits types expected v := by
  rw [firstMisfit_none_iff]
  exact forall_congr' fun v => imp_congr_left Body.mem_results_block

/-- The verdict on a block is what the check finds. -/
lemma gives_checkReturnGuarded_ofBlock_iff (answers : typing.Answers g types)
    (value : expected ≠ .void) {ps : ParamList} {body : List Stmt} {m : Option ReturnMismatch}
    {g' : RecursionGuard} :
    (t.checkReturnGuarded (.ofBlock ps body) (some expected) typing g).Gives (m, g') ↔
      t.BlockVerdict types expected body m ∧ g' = g := by
  rw [gives_checkReturnGuarded_iff answers value, and_congr_left_iff]
  rintro -
  change (∃ found, t.FirstMisfit types expected (Body.block body).results found ∧ _) ↔ _
  constructor
  · rintro ⟨found, first, rfl⟩
    -- A misfit is reported as such; only if there is none a missing value can be.
    cases found with
    | some mismatch =>
      rw [Body.results_block] at first
      obtain ⟨before, e, after, found, text, fits, misfit, rfl⟩ := firstMisfit_some_iff.1 first
      exact .badType text fits misfit
    | none =>
      have fits := firstMisfit_results_none_iff.1 first
      rw [Option.none_or]
      split
      · rename_i missing
        exact .missingValue fits (Lambda.missesValue_ofBlock.1 missing)
      · rename_i complete
        exact .fits fits fun missing => complete (Lambda.missesValue_ofBlock.2 missing)
  · intro verdict
    cases verdict with
    | badType text fits misfit =>
      have first := firstMisfit_some_iff.2 ⟨_, _, _, _, text, fits, misfit, rfl⟩
      rw [← Body.results_block] at first
      exact ⟨_, first, rfl⟩
    | missingValue fits missing =>
      refine ⟨none, firstMisfit_results_none_iff.2 fits, ?_⟩
      rw [Lambda.missesValue_ofBlock.2 missing]
      rfl
    | fits fits complete =>
      refine ⟨none, firstMisfit_results_none_iff.2 fits, ?_⟩
      rw [Option.none_or, if_neg fun missing => complete (Lambda.missesValue_ofBlock.1 missing)]

/-- Some verdict is reached if all questions end whether a value is assignable. -/
lemma exists_firstMisfit {es : List Expr}
    (asked : ∀ e ∈ es, ∀ found, types e.id = some found → (t.assignable found expected).Ends) :
    ∃ m, t.FirstMisfit types expected es m := by
  induction es with
  | nil => exact ⟨_, .nil⟩
  | cons e es ih =>
    obtain ⟨here, later⟩ := List.forall_mem_cons.1 asked
    obtain ⟨m, rest⟩ := ih later
    cases known : types e.id with
    | none => exact ⟨m, (firstMisfit_cons_of_unknown known).2 rest⟩
    | some found =>
      obtain ⟨fits, answer⟩ := here found known
      cases fits with
      | true => exact ⟨m, (firstMisfit_cons_of_known known).2 (.inl ⟨answer, rest⟩)⟩
      | false => exact ⟨_, (firstMisfit_cons_of_known known).2 (.inr ⟨answer, rfl⟩)⟩

/-- A misfit is never a missing value. -/
lemma firstMisfit_ne_missingValue {es : List Expr} {m : Option ReturnMismatch}
    (h : t.FirstMisfit types expected es m) : m ≠ some .missingValue := by
  induction h with
  | nil => simp
  | here _ => simp
  | later _ _ ih => exact ih

end Answered

/-- A check of a block against a method without a result finds that the block returns a value. -/
lemma gives_checkReturnGuarded_void_iff {t : ClassTable} {typing : ExprTyping} {ps : ParamList}
    {body : List Stmt} {g g' : RecursionGuard} {m : Option ReturnMismatch} :
    (t.checkReturnGuarded (.ofBlock ps body) (some .void) typing g).Gives (m, g') ↔
      m = (if (Lambda.ofBlock ps body).voidCompatible then none else some .unexpectedValue) ∧
        g' = g := by
  have same : (Body.block body).results.isEmpty = (Lambda.ofBlock ps body).voidCompatible := by
    rw [Bool.eq_iff_iff, Body.isEmpty_results_block, Lambda.voidCompatible_ofBlock]
  change ((pure (if (Body.block body).results.isEmpty then none else some .unexpectedValue) :
    GuardedQuery (Option ReturnMismatch)) g).Gives (m, g') ↔ _
  rw [same]
  refine Query.gives_pure_iff.trans ⟨?_, ?_⟩
  · rintro ⟨⟩
    exact ⟨rfl, rfl⟩
  · rintro ⟨rfl, rfl⟩
    rfl

/-- What the return check finds, for every typing that answers for each expression. About a block
that is to return values it finds the verdict on the block; whether the lambda is marked as fitting
a method without a result makes no difference. A block that is to return nothing is at fault if some
`return` in it has a value, which is what the mark says. In an expression no value is ever missing.
-/
theorem checkReturn_decides {t : ClassTable} {typing : ExprTyping}
    {types : RecursionGuard → ExprId → Option Ty} (answers : ∀ g, typing.Answers g (types g))
    (ps : ParamList) :
    (∀ body expected, expected ≠ .void →
      (∀ g m g', (t.checkReturnGuarded (.ofBlock ps body) (some expected) typing g).Gives (m, g') ↔
        t.BlockVerdict (types g) expected body m ∧ g' = g) ∧
      (∀ m, (t.checkReturn (.ofBlock ps body) (some expected) typing).Gives m ↔
        t.BlockVerdict (types .empty) expected body m) ∧
      ∀ g, (∀ v found, .ret (some v) ∈ Stmt.preorderOf body → types g v.id = some found →
          (t.assignable found expected).Ends) →
        (t.checkReturnGuarded (.ofBlock ps body) (some expected) typing g).Ends) ∧
    (∀ body, ((Lambda.ofBlock ps body).body.results.isEmpty &&
      !(Lambda.ofBlock ps body).voidCompatible) = false) ∧
    (∀ body g m g', (t.checkReturnGuarded (.ofBlock ps body) (some .void) typing g).Gives (m, g') ↔
      m = (if (Lambda.ofBlock ps body).voidCompatible then none else some .unexpectedValue) ∧
        g' = g) ∧
    (∀ body, (Lambda.ofBlock ps body).voidCompatible = false ↔
      ∃ v, .ret (some v) ∈ Stmt.preorderOf body) ∧
    ∀ e target g m g', (t.checkReturnGuarded (.ofExpression ps e) target typing g).Gives (m, g') →
      m ≠ some .missingValue := by
  refine ⟨fun body expected value => ⟨?_, ?_, ?_⟩, fun _ => Lambda.isEmpty_and_not_voidCompatible,
    fun _ _ _ _ => gives_checkReturnGuarded_void_iff, ?_, ?_⟩
  · intro g m g'
    exact gives_checkReturnGuarded_ofBlock_iff (answers g) value
  · intro m
    rw [gives_checkReturn_iff]
    simp [gives_checkReturnGuarded_ofBlock_iff (answers _) value]
  · intro g asked
    obtain ⟨m, first⟩ := exists_firstMisfit fun v hv found known =>
      asked v found (Body.mem_results_block.1 hv) known
    exact ⟨_, (gives_checkReturnGuarded_iff (answers g) value).2 ⟨⟨m, first, rfl⟩, rfl⟩⟩
  · intro body
    rw [← Bool.not_eq_true, Lambda.voidCompatible_ofBlock]
    simp
  · intro e target g m g' h
    match target with
    | none =>
      cases Query.gives_pure_iff.1 h
      exact nofun
    | some expected =>
      by_cases value : expected = .void
      · subst value
        obtain ⟨rfl, -⟩ := (gives_checkReturnGuarded_void_expression_iff (answers g)).1 h
        split <;> simp
      · obtain ⟨⟨found, first, rfl⟩, -⟩ := (gives_checkReturnGuarded_iff (answers g) value).1 h
        rw [Lambda.missesValue_ofExpression, if_neg Bool.false_ne_true, Option.or_none]
        exact firstMisfit_ne_missingValue first

/-- The body `l: while (c) try { switch (x) { default: if (d) return i; return b; } } catch (E e) {
return; } finally { return j; }`, with expressions `i`, `b` and `j`. -/
def searchingBody : List Stmt :=
  [.labeled "l" (.loop .whileDo
    [.tryFinally
      [.switch [[.ifThen [.ret (some ⟨⟨0⟩, false⟩)], .ret (some ⟨⟨1⟩, false⟩)]] false true]
      [[.ret none]] [.ret (some ⟨⟨2⟩, false⟩)]] false)]

/-- The type `int` for `i`, `boolean` for `b` and for `j`. -/
def searchingTypes (e : ExprId) : Option Ty :=
  some (if e = ⟨0⟩ then .prim .int else .prim .boolean)

/-- The searching body returns a `boolean` for a `long`, and this is what is found, though it also
returns nothing. -/
theorem checkReturn_decides_searchingBody :
    (∀ g, (ExprTyping.ofTypes searchingTypes).Answers g
        fun e => if g.isActive e then none else searchingTypes e) ∧
      (platform.checkReturn (.ofBlock (.implicit []) searchingBody) (some (.prim .long))
        (ExprTyping.ofTypes searchingTypes)).Gives
          (some (.badType (some (.prim .boolean)) (.prim .long))) := by
  have answers (g : RecursionGuard) := ExprTyping.answers_ofTypes searchingTypes g
  have text : Stmt.preorderOf searchingBody = (Stmt.preorderOf searchingBody).take 6 ++
      .ret (some ⟨⟨1⟩, false⟩) :: (Stmt.preorderOf searchingBody).drop 7 := by
    simp [searchingBody, Stmt.children]
  have only (v : Expr) (hv : .ret (some v) ∈ (Stmt.preorderOf searchingBody).take 6) :
      v = ⟨⟨0⟩, false⟩ := by
    simpa [searchingBody, Stmt.children] using hv
  have widens : (platform.assignable (.prim .int) (.prim .long)).Gives true :=
    Query.gives_of_attempt (n := 2) (by decide +kernel)
  have refuses : (platform.assignable (.prim .boolean) (.prim .long)).Gives false :=
    Query.gives_of_attempt (n := 2) (by decide +kernel)
  obtain ⟨-, decides, -⟩ := (checkReturn_decides (t := platform) answers (.implicit [])).1
    searchingBody (.prim .long) (by simp)
  refine ⟨answers, (decides _).2 (.badType text (fun v hv found known => ?_) ⟨rfl, refuses⟩)⟩
  obtain rfl := only v hv
  cases known
  exact widens

end ClassTable

end LambdaTyping
