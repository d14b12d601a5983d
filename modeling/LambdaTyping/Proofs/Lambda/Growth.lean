import LambdaTyping.Proofs.Lambda.Memoization
import LambdaTyping.Proofs.Target.Growth

/-!
# Checks in tables that grow

Nothing that is asked of a closed table depends on what is declared later (`answers_kept`): whatever
it grows to, types and classes that it holds are compared, viewed, erased, shown and resolved as
before, and lambdas are checked as before.
-/

namespace LambdaTyping

/-- The types of the parameters are over the table. -/
def Lambda.Over (s : ClassTable) (l : Lambda) : Prop :=
  ∀ p ∈ l.params.toList, p.ty.Over s

/-- The types that expressions are found to have are over the table. -/
def ExprTyping.Over (s : ClassTable) (typing : ExprTyping) : Prop :=
  ∀ e g ty g', (typing e g).Gives (some ty, g') → ty.Over s

/-- The types that the mismatch names are over the table. -/
def ParameterMismatch.Over (s : ClassTable) : ParameterMismatch → Prop
  | .arity _ _ => True
  | .parameter _ expected found => expected.Over s ∧ found.Over s

/-- The types that the mismatch names are over the table. -/
def ReturnMismatch.Over (s : ClassTable) : ReturnMismatch → Prop
  | .badType found expected => (∀ ty ∈ found, Ty.Over s ty) ∧ expected.Over s
  | .unexpectedValue | .missingValue => True

namespace ClassTable

variable {s t : ClassTable} {ty : Ty} {l : Lambda}

section Message

variable (ext : s.Extends t)

include ext

/-- A mismatch of parameters over the first table has the same message in both. -/
lemma Extends.parameterMessage {mismatch : ParameterMismatch} (h : mismatch.Over s) :
    mismatch.message t = mismatch.message s := by
  unfold ParameterMismatch.message
  split
  · rfl
  · rw [ext.display h.1, ext.display h.2]

/-- A type found over the first table is shown alike in both, and so is one that is missing. -/
lemma Extends.displayFound {found : Option Ty} (h : ∀ ty ∈ found, Ty.Over s ty) :
    ReturnMismatch.displayFound t found = ReturnMismatch.displayFound s found := by
  cases found with
  | none => simp only [ReturnMismatch.displayFound]
  | some ty =>
    have shown := ext.display (h ty rfl)
    cases ty with
    | _ => simp only [ReturnMismatch.displayFound, shown]

/-- A mismatch of returned values over the first table has the same message in both. -/
lemma Extends.returnMessage {mismatch : ReturnMismatch} (h : mismatch.Over s) :
    mismatch.message t = mismatch.message s := by
  unfold ReturnMismatch.message
  split
  · rfl
  · rw [ext.displayFound h.1, ext.display h.2]
  · rfl

end Message

section Parameters

variable {ps : List (Ty × Ty)} {m : Signature} {u u' : Subst}

/-- The ground form of a parameter type does not lead out of a self-contained table. -/
lemma SelfContained.over_groundParameter (self : s.SelfContained) (h : ty.Over s) :
    (s.groundParameter ty).Over s := by
  cases ty with
  | wildExtends b => exact Ty.over_wildExtends.1 h
  | wildSuper b => exact Ty.over_wildSuper.1 h
  | wild => exact self.over_objectType
  | _ => exact h

/-- The first mismatch of parameters names types over the table. -/
lemma over_of_firstMismatch (hps : ∀ p ∈ ps, p.1.Over s ∧ p.2.Over s) {explicit : Bool} {i : Nat}
    {mismatch : ParameterMismatch} (h : (s.firstMismatch explicit i ps).Gives (some mismatch)) :
    mismatch.Over s := by
  induction ps generalizing i with
  | nil => cases Query.gives_pure_iff.1 h
  | cons p ps ih =>
    obtain ⟨⟨hfound, hexpected⟩, hps⟩ := List.forall_mem_cons.1 hps
    obtain ⟨fits, -, h⟩ := Query.gives_bind_iff.1 h
    cases fits with
    | true => exact ih hps h
    | false =>
      cases Query.gives_pure_iff.1 h
      exact ⟨hexpected, hfound⟩

/-- The types compared by a parameter check are over the table. -/
lemma SelfContained.over_parameterPairs (self : s.SelfContained) (hl : l.Over s)
    (hm : ∀ p ∈ m.params, (u.apply p).Over s) {p : Ty × Ty}
    (hp : p ∈ parameterPairs l (m.params.map fun p => s.groundParameter (u.apply p))) :
    p.1.Over s ∧ p.2.Over s := by
  obtain ⟨hfound, hexpected⟩ := List.of_mem_zip hp
  obtain ⟨param, hparam, found⟩ := List.mem_map.1 hfound
  obtain ⟨ty, hty, expected⟩ := List.mem_map.1 hexpected
  rw [← found, ← expected]
  exact ⟨hl param hparam, self.over_groundParameter (hm ty hty)⟩

/-- The check of the parameters names types over the table. -/
lemma SelfContained.over_of_checkParameters (self : s.SelfContained) (hl : l.Over s)
    (hm : ∀ p ∈ m.params, (u.apply p).Over s) {mismatch : ParameterMismatch}
    (h : (s.checkParameters l m u).Gives (some mismatch)) : mismatch.Over s := by
  rw [checkParameters] at h
  split at h
  · exact over_of_firstMismatch (fun p => self.over_parameterPairs hl hm) h
  · cases Query.gives_pure_iff.1 h
    trivial

variable (self : s.SelfContained) (ext : s.Extends t)

include ext

/-- Parameter types have the same ground form in both tables. -/
lemma Extends.groundParameter (ty : Ty) : t.groundParameter ty = s.groundParameter ty := by
  cases ty with
  | wild => rw [ClassTable.groundParameter, ClassTable.groundParameter, ext.objectType]
  | _ => simp only [ClassTable.groundParameter]

include self

/-- Parameters over the first table have the same first mismatch in both. -/
lemma Extends.firstMismatch (explicit : Bool) (hps : ∀ p ∈ ps, p.1.Over s ∧ p.2.Over s) (i : Nat) :
    t.firstMismatch explicit i ps = s.firstMismatch explicit i ps := by
  induction ps generalizing i with
  | nil => rw [ClassTable.firstMismatch, ClassTable.firstMismatch]
  | cons p ps ih =>
    obtain ⟨found, expected⟩ := p
    obtain ⟨⟨hfound, hexpected⟩, hps⟩ := List.forall_mem_cons.1 hps
    rw [ClassTable.firstMismatch, ClassTable.firstMismatch, parameterFits, parameterFits,
      ext.assignable self hexpected hfound, ih hps]

/-- The parameter check of a method is the same query in both tables, seen through substitutions
that give the same types. -/
lemma Extends.checkParameters (same : ∀ ty, u'.apply ty = u.apply ty) (hl : l.Over s)
    (hm : ∀ p ∈ m.params, (u.apply p).Over s) :
    t.checkParameters l m u' = s.checkParameters l m u := by
  have expected : (m.params.map fun p => t.groundParameter (u'.apply p)) =
      m.params.map fun p => s.groundParameter (u.apply p) :=
    List.map_congr_left fun p _ => by rw [same, ext.groundParameter]
  have compared := ext.firstMismatch self l.params.isExplicit
    (fun p => self.over_parameterPairs hl hm) 0
  rw [parameterPairs] at compared
  rw [ClassTable.checkParameters, ClassTable.checkParameters, expected, compared]

end Parameters

section Return

variable {typing : ExprTyping} {expected : Ty}

/-- The first bad result names types over the table. -/
lemma over_of_firstBadResult (htyping : typing.Over s) (he : expected.Over s) {es : List Expr}
    {g g' : RecursionGuard} {mismatch : ReturnMismatch}
    (h : (s.firstBadResult typing expected es g).Gives (some mismatch, g')) :
    mismatch.Over s := by
  induction es generalizing g with
  | nil => cases Query.gives_pure_iff.1 h
  | cons e es ih =>
    obtain ⟨⟨found, next⟩, typed, h⟩ := Query.gives_bind_iff.1 h
    cases found with
    | none => exact ih h
    | some ty =>
      obtain ⟨⟨fits, after⟩, -, h⟩ := Query.gives_bind_iff.1 h
      cases fits with
      | true => exact ih h
      | false =>
        cases Query.gives_pure_iff.1 h
        refine ⟨fun x hx => ?_, he⟩
        cases hx
        exact htyping e.id g ty next typed

/-- The check against `void` names types over the table. -/
lemma over_of_checkVoid (htyping : typing.Over s) {g g' : RecursionGuard}
    {mismatch : ReturnMismatch} (h : (l.checkVoid typing g).Gives (some mismatch, g')) :
    mismatch.Over s := by
  obtain ⟨params, body, voidCompatible⟩ := l
  unfold Lambda.checkVoid at h
  cases body with
  | block stmts =>
    have given := (Prod.mk.inj (Query.gives_pure_iff.1 h)).1
    split at given
    · cases given
    · cases given
      trivial
  | expression e =>
    dsimp only at h
    split at h
    · cases Query.gives_pure_iff.1 h
    · obtain ⟨⟨found, next⟩, typed, h⟩ := Query.gives_bind_iff.1 h
      cases Query.gives_pure_iff.1 h
      refine ⟨fun ty hty => ?_, Ty.over_void⟩
      obtain rfl := Option.mem_def.1 hty
      exact htyping e.id g ty g' typed

/-- The check of the returned values names types over the table. -/
lemma over_of_checkReturn (htyping : typing.Over s) (he : expected.Over s)
    {mismatch : ReturnMismatch}
    (h : (s.checkReturn l (some expected) typing).Gives (some mismatch)) : mismatch.Over s := by
  obtain ⟨g, h⟩ := gives_checkReturn_iff.1 h
  by_cases void : expected = .void
  · subst void
    exact over_of_checkVoid htyping h
  · rw [checkReturnGuarded_of_ne_void void] at h
    obtain ⟨⟨bad, next⟩, hbad, h⟩ := Query.gives_bind_iff.1 h
    cases bad with
    | some bad =>
      cases Query.gives_pure_iff.1 h
      exact over_of_firstBadResult htyping he hbad
    | none =>
      have given := (Prod.mk.inj (Query.gives_pure_iff.1 h)).1
      split at given
      · cases given
        trivial
      · cases given

variable (self : s.SelfContained) (ext : s.Extends t)

include self ext

/-- Values with types over the first table have the same first bad result in both. -/
lemma Extends.firstBadResult (htyping : typing.Over s) (he : expected.Over s) (es : List Expr) :
    t.firstBadResult typing expected es = s.firstBadResult typing expected es := by
  induction es with
  | nil => rw [ClassTable.firstBadResult, ClassTable.firstBadResult]
  | cons e es ih =>
    rw [ClassTable.firstBadResult, ClassTable.firstBadResult, ih]
    -- Both ask the same typing first, so only what follows its answers has to be compared.
    funext g
    refine Query.bind_congr ?_
    rintro ⟨found, next⟩ typed
    cases found with
    | none => dsimp only
    | some ty =>
      dsimp only
      rw [ext.assignable self (htyping e.id g ty next typed) he]

/-- Values with types over the first table are checked alike in both. -/
lemma Extends.checkReturn (htyping : typing.Over s) (he : expected.Over s) :
    t.checkReturn l (some expected) typing = s.checkReturn l (some expected) typing := by
  have guarded : t.checkReturnGuarded l (some expected) typing =
      s.checkReturnGuarded l (some expected) typing := by
    by_cases void : expected = .void
    · -- Nothing is asked of the table about a method without a result.
      subst void
      rw [checkReturnGuarded, checkReturnGuarded]
    · rw [checkReturnGuarded_of_ne_void void, checkReturnGuarded_of_ne_void void,
        ext.firstBadResult self htyping he]
  rw [ClassTable.checkReturn, ClassTable.checkReturn, guarded]

end Return

section Check

variable {m : TargetMethod} {typing : ExprTyping} {checker : Checker} {target : Ty}
  (self : s.SelfContained)

include self

/-- The method of a target is seen with types over the table. -/
lemma SelfContained.over_apply_groundSubst (hm : m.Over s) (h : ty.Over s) :
    ((m.groundSubst s).apply ty).Over s :=
  h.apply fun _ _ => self.over_groundSubst hm

/-- A method to which a type over the table is resolved has a signature over it. -/
lemma SelfContained.over_signature_of_resolve {config : Config} {cache cache' : CandidateCache}
    (fresh : cache.Fresh s)
    (resolved : (s.resolve config cache ty).Gives (.ok (.method m), cache')) :
    m.signature.Over s := by
  obtain ⟨c, _, d, implements⟩ := exists_implements_of_resolve fresh resolved
  exact self.over_of_candidates implements.candidate (List.mem_singleton_self _)

variable (ext : s.Extends t)

include ext

/-- A lambda over the first table is checked against a method alike in both. -/
lemma Extends.checkMethod (hm : m.Over s) (hsig : m.signature.Over s) (hl : l.Over s)
    (htyping : typing.Over s) (span : Option Span) :
    Checker.checkMethod t m l typing span = Checker.checkMethod s m l typing span := by
  have same := ext.apply_groundSubst self.toClosed hm
  have params : ∀ p ∈ m.signature.params, ((m.groundSubst s).apply p).Over s :=
    fun p hp => self.over_apply_groundSubst hm (hsig.params p hp)
  have result := self.over_apply_groundSubst hm hsig.returnType
  rw [Checker.checkMethod, Checker.checkMethod]
  dsimp only
  rw [same, ext.checkParameters self same hl params, ext.checkReturn self htyping result]
  refine Query.bind_congr fun mismatch given => ?_
  cases mismatch with
  | some mismatch =>
    dsimp only
    rw [ext.parameterMessage (self.over_of_checkParameters hl params given)]
  | none =>
    refine Query.bind_congr fun found given => ?_
    cases found with
    | none => rfl
    | some mismatch =>
      simp only [Option.toList_some, List.map_cons, List.map_nil,
        ext.returnMessage (over_of_checkReturn htyping result given)]

/-- A lambda over the first table is checked against a target alike in both. -/
lemma Extends.check (fresh : (checker.cache.getD .empty).Fresh s) (htarget : target.Over s)
    (hl : l.Over s) (htyping : typing.Over s) (span : Option Span) :
    checker.check t target l typing span = checker.check s target l typing span := by
  have resolution : checker.resolve t target = checker.resolve s target := by
    rw [Checker.resolve, Checker.resolve, ext.resolve self _ htarget]
  rw [Checker.check, Checker.check, resolution]
  refine Query.bind_congr ?_
  rintro ⟨result, after⟩ given
  obtain ⟨⟨found, cache⟩, resolved, given⟩ := Query.gives_bind_iff.1 given
  cases Query.gives_pure_iff.1 given
  cases result with
  | error e => rfl
  | ok found =>
    cases found with
    | deferred => rfl
    | method m =>
      have hm := self.over_of_resolve htarget resolved
      have hsig := self.over_signature_of_resolve fresh resolved
      dsimp only
      rw [ext.checkMethod self hm hsig hl htyping]

/-- The check of a lambda is the same query in both tables. -/
lemma Extends.checkLambda {config : Config} (htarget : target.Over s) (hl : l.Over s)
    (htyping : typing.Over s) :
    t.checkLambda config target l typing = s.checkLambda config target l typing := by
  rw [ClassTable.checkLambda, ClassTable.checkLambda,
    ext.check self (Checker.fresh_ofConfig _) htarget hl htyping]

end Check

/-- Whatever is asked about types, classes and lambdas over the first table, the second answers
alike: the questions are the same queries. -/
structure AnswersAlike (s t : ClassTable) : Prop where
  closure : ∀ ty, ty.Over s → t.closure ty = s.closure ty
  view : ∀ ty target, ty.Over s → s.declares target = true → t.view ty target = s.view ty target
  erasure : ∀ ty, ty.Over s → t.erasure ty = s.erasure ty
  subtype : ∀ a b, a.Over s → b.Over s → t.subtype a b = s.subtype a b
  assignable : ∀ a b, a.Over s → b.Over s → t.assignable a b = s.assignable a b
  display : ∀ ty, ty.Over s → t.display ty = s.display ty
  candidates : ∀ c, s.declares c = true → t.candidates c = s.candidates c
  resolve : ∀ config cache ty, ty.Over s →
    t.resolve config cache ty = s.resolve config cache ty
  functionType : ∀ config cache ty m cache', ty.Over s →
    (s.resolve config cache ty).Gives (.ok (.method m), cache') →
      m.parameterTypes t = m.parameterTypes s ∧ m.returnType t = m.returnType s
  checkLambda : ∀ config target l typing, target.Over s → l.Over s → typing.Over s →
    t.checkLambda config target l typing = s.checkLambda config target l typing

/-- A table that extends a self-contained one answers alike whatever concerns the first. -/
lemma Extends.answersAlike (self : s.SelfContained) (ext : s.Extends t) : s.AnswersAlike t where
  closure _ h := ext.closure self h
  view _ _ h htarget := ext.view self htarget h
  erasure _ h := ext.erasure self.toClosed h
  subtype _ _ ha hb := ext.subtype self ha hb
  assignable _ _ ha hb := ext.assignable self ha hb
  display _ h := ext.display h
  candidates _ hc := ext.candidates self hc
  resolve _ cache _ h := ext.resolve self cache h
  functionType _ _ _ _ _ h resolved :=
    have hm := self.over_of_resolve h resolved
    ⟨ext.parameterTypes self.toClosed hm, ext.returnType self.toClosed hm⟩
  checkLambda _ _ _ _ htarget hl htyping := ext.checkLambda self htarget hl htyping

/-- Later declarations change no earlier answer: a closed table that has the names of the boxes in
its index answers as every table it grows to. -/
theorem answers_kept {grown : ClassTable} (built : ∃ es, s = platform.editAll es)
    (closed : s.Closed) (boxes : ∀ p : Primitive, (s.classNamed? p.boxName).isSome = true)
    (grows : s.GrowsTo grown) : s.AnswersAlike grown := by
  obtain ⟨es, rfl⟩ := built
  exact grows.extends.answersAlike (selfContained_editAll closed boxes)

/-- A generic interface below `Function`, declared under a name and a type parameter given before,
whose bound comes to be the interface itself; and one more class. -/
def taskDeclared : List TableEdit :=
  [.declare (.intern "com.example.Task"),
    .addParam "T" [.cls ⟨0⟩ []],
    .declare (.define ⟨28⟩ {
      name := "com.example.Task"
      kind := .interface
      typeParams := [⟨18⟩]
      superClass := none
      interfaces := [.cls ⟨23⟩ [.var ⟨18⟩, .var ⟨18⟩]]
      methods := [] }),
    .setUpperBounds ⟨18⟩ [.cls ⟨28⟩ [.var ⟨18⟩]],
    .declare (.upsert (.placeholder "com.example.Job"))]

/-- The platform classes grow to the table with the task. -/
lemma growsTo_taskDeclared : platform.GrowsTo (platform.editAll taskDeclared) := by
  have named : ((platform.editAll (taskDeclared.take 2)).class? ⟨28⟩).map ClassDecl.name =
      some "com.example.Task" := by decide +kernel
  have new : platform.classNamed? "com.example.Job" = none := by decide +kernel
  refine .edit (.edit (.edit (.edit (.edit .refl (.intern _)) (.addParam _ _)) (.define ?_ ?_))
    (.setUpperBounds _ ?_)) (.upsert new)
  · decide +kernel
  · -- What is defined is the class that the first edit has named.
    intro old found
    change (platform.editAll (taskDeclared.take 2)).class? ⟨28⟩ = some old at found
    rw [found] at named
    exact Option.some_inj.1 named
  · decide +kernel

/-- The lambda `(Integer x) -> x`. -/
def integerIdentity : Lambda :=
  .ofExpression (.explicit [⟨"x", .cls ⟨6⟩ []⟩]) ⟨⟨0⟩, false⟩

/-- The platform answers as before after such declarations; in particular a lambda is checked the
same way against `Function<Integer, Integer>`. -/
theorem answers_kept_taskDeclared :
    platform.Closed ∧ (∀ p : Primitive, (platform.classNamed? p.boxName).isSome = true) ∧
      platform.GrowsTo (platform.editAll taskDeclared) ∧
      platform.classNamed? "com.example.Task" = none ∧
      (platform.editAll taskDeclared).classNamed? "com.example.Task" = some ⟨28⟩ ∧
      platform.AnswersAlike (platform.editAll taskDeclared) ∧
      (platform.editAll taskDeclared).checkLambda .default
          (.cls ⟨23⟩ [.cls ⟨6⟩ [], .cls ⟨6⟩ []]) integerIdentity
          (fun _ => pure (some (.cls ⟨6⟩ []))) =
        platform.checkLambda .default (.cls ⟨23⟩ [.cls ⟨6⟩ [], .cls ⟨6⟩ []]) integerIdentity
          (fun _ => pure (some (.cls ⟨6⟩ []))) := by
  have closed : platform.Closed := by decide +kernel
  have indexed : ∀ p ∈ [Primitive.boolean, .byte, .short, .char, .int, .long, .float, .double],
      (platform.classNamed? p.boxName).isSome = true := by decide +kernel
  have boxes (p : Primitive) : (platform.classNamed? p.boxName).isSome = true :=
    indexed p (by cases p <;> decide)
  have alike := answers_kept ⟨[], rfl⟩ closed boxes growsTo_taskDeclared
  refine ⟨closed, boxes, growsTo_taskDeclared, by decide +kernel, by decide +kernel, alike, ?_⟩
  refine alike.checkLambda _ _ _ _ (by decide +kernel) ?_ ?_
  · intro p hp
    obtain rfl := List.mem_singleton.1 hp
    decide +kernel
  · intro e g ty g' typed
    cases Query.gives_pure_iff.1 typed
    decide +kernel

end ClassTable

end LambdaTyping
