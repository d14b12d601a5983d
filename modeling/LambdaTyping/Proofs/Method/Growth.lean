import LambdaTyping.Proofs.Method.Candidates
import LambdaTyping.Proofs.Subtyping.Growth
import LambdaTyping.Method.CandidateCache

/-!
# Candidates in tables that grow

The methods of a class of a closed table name types over the table, so their signatures compare
alike in every table that extends it, and the candidates of the class are the same query.
-/

namespace LambdaTyping

/-- Tests that agree on the members of a list find the same in it. -/
lemma any_congr_of_mem {α : Type} {l : List α} {p q : α → Bool} (h : ∀ x ∈ l, p x = q x) :
    l.any p = l.any q := by
  rw [Bool.eq_iff_iff, List.any_eq_true, List.any_eq_true]
  exact exists_congr fun x => and_congr_right fun hx => by rw [h x hx]

/-- The signature mentions only what the table holds. -/
structure Signature.Over (s : ClassTable) (m : Signature) : Prop where
  owner : s.declares m.owner = true
  params : ∀ p ∈ m.params, p.Over s
  returnType : m.returnType.Over s

namespace ClassTable

variable {s t : ClassTable} {c : ClassId} {d : ClassDecl} {m n : Signature}

section Closed

/-- A class seen within its own declaration does not lead out of a closed table. -/
lemma Closed.over_selfType (closed : s.Closed) (hd : s.class? c = some d) :
    (selfType c d).Over s := by
  refine Ty.over_cls.2 ⟨by simp [declares, hd], List.forall_mem_map.2 fun v hv => ?_⟩
  exact Ty.over_var.2 (closed.typeParams d (mem_classes_of_class? hd) v hv)

/-- A method of a class of a closed table, at arguments over the table, has a signature over it. -/
lemma Closed.over_ofMethod (closed : s.Closed) (hd : s.class? c = some d) {decl : MethodDecl}
    (hdecl : decl ∈ d.methods) {u : Subst} (hu : ∀ v x, u.get? v = some x → x.Over s) :
    (Signature.ofMethod c decl u).Over s := by
  have held := closed.methods d (mem_classes_of_class? hd) decl hdecl
  refine ⟨by simp [Signature.ofMethod, declares, hd], List.forall_mem_map.2 fun p hp => ?_, ?_⟩
  · exact (held p (List.mem_cons_of_mem _ hp)).apply hu
  · exact (held decl.returnType List.mem_cons_self).apply hu

variable (self : s.SelfContained)

include self

/-- The methods of `Object` are over a self-contained table. -/
lemma SelfContained.over_of_mem_objectMethods (hm : m ∈ s.objectMethods) : m.Over s := by
  unfold objectMethods at hm
  split at hm
  · cases hm
  · rename_i d hd
    obtain ⟨decl, hdecl, rfl⟩ := List.mem_map.1 hm
    refine self.over_ofMethod hd (List.mem_filter.1 hdecl).1 fun v x hx => ?_
    rw [Subst.get?_empty] at hx
    cases hx

/-- The members of a class are over a self-contained table. -/
lemma SelfContained.over_of_mem_members (hd : s.class? c = some d) {m : Member}
    (hm : m ∈ s.members c d) : m.signature.Over s := by
  obtain ⟨e, he, o, ho, decl, hdecl, rfl⟩ := exists_of_mem_members hm
  have above := self.over_of_mem_classClosure (c := ⟨c, _⟩) (self.over_selfType hd) he
  exact self.over_ofMethod ho hdecl fun v x => self.over_instantiate (Ty.over_cls.1 above).2

/-- The open methods of a class are over a self-contained table. -/
lemma SelfContained.over_of_mem_openMethods (hd : s.class? c = some d)
    (hm : m ∈ s.openMethods c d) : m.Over s := by
  obtain ⟨member, hmember, rfl⟩ := List.mem_map.1 hm
  exact self.over_of_mem_members hd (List.mem_filter.1 hmember).1

/-- The candidates of a class are over a self-contained table. -/
lemma SelfContained.over_of_candidates {cs : List Signature}
    (h : (s.candidates c).Gives (some cs)) (hm : m ∈ cs) : m.Over s := by
  cases hd : s.class? c with
  | none =>
    simp only [candidates, hd] at h
    cases Query.gives_pure_iff.1 h
  | some d =>
    have mem := mem_leftOpen_of_candidate hd h hm
    rw [← openMethods_eq] at mem
    exact self.over_of_mem_openMethods hd mem

end Closed

section Extends

variable (self : s.SelfContained) (ext : s.Extends t)

include self ext

/-- A signature over the first table has the same erased parameters in both. -/
lemma Extends.erasedParams (hm : m.Over s) : m.erasedParams t = m.erasedParams s :=
  List.map_congr_left fun p hp => ext.erasure self.toClosed (hm.params p hp)

/-- Signatures over the first table compare alike in both. -/
lemma Extends.sameAs (hm : m.Over s) (hn : n.Over s) : m.sameAs t n = m.sameAs s n := by
  rw [Signature.sameAs, Signature.sameAs, ext.erasedParams self hm, ext.erasedParams self hn]

/-- A class type over the first table has the same members of its own in both. -/
lemma Extends.membersOf {e : ClassTy} (he : e.toTy.Over s) : t.membersOf e = s.membersOf e := by
  rw [ClassTable.membersOf, ClassTable.membersOf, ext.wellKnown,
    ext.classes e.head (Ty.over_cls.1 he).1]
  cases hd : s.class? e.head with
  | none => rfl
  | some d => simp only [ext.instantiate self hd]

/-- A class of the first table has the same members in both. -/
lemma Extends.members (hd : s.class? c = some d) : t.members c d = s.members c d := by
  have own := self.over_selfType hd
  rw [ClassTable.members, ClassTable.members, ext.closure self own]
  exact List.flatMap_congr fun e he => ext.membersOf self (self.over_of_mem_closure own he)

omit self in
/-- The root class has the same methods in both tables. -/
lemma Extends.objectMethods (object : s.declares s.wellKnown.object = true) :
    t.objectMethods = s.objectMethods := by
  rw [ClassTable.objectMethods, ClassTable.objectMethods, ext.wellKnown, ext.classes _ object]

/-- What stands below what, from a class of the first table on, is the same in both. -/
lemma Extends.isBelow {sub : ClassId} (hsub : s.declares sub = true) (sup : ClassId) :
    t.isBelow sub sup = s.isBelow sub sup := by
  have held : (⟨sub, []⟩ : ClassTy).toTy.Over s := Ty.over_cls.2 ⟨hsub, List.forall_mem_nil _⟩
  rw [ClassTable.isBelow, ClassTable.isBelow, ext.classClosure self held]

/-- A member over the first table is overridden in both or in none. -/
lemma Extends.overridden {ms : List Member} (hms : ∀ n ∈ ms, n.signature.Over s) (hm : m.Over s) :
    t.overridden ms m = s.overridden ms m := by
  refine any_congr_of_mem fun n hn => ?_
  rw [ext.sameAs self (hms n hn) hm, ext.isBelow self (hms n hn).owner]

/-- A member over the first table is open in both or in none. -/
lemma Extends.isOpen {ms : List Member} (hms : ∀ n ∈ ms, n.signature.Over s) {m : Member}
    (hm : m ∈ ms) : t.isOpen ms m = s.isOpen ms m := by
  have object : (s.objectMethods.any fun o => o.sameAs t m.signature) =
      s.objectMethods.any fun o => o.sameAs s m.signature :=
    any_congr_of_mem fun o ho => ext.sameAs self (self.over_of_mem_objectMethods ho) (hms m hm)
  rw [ClassTable.isOpen, ClassTable.isOpen, ext.objectMethods self.object, object,
    ext.overridden self hms (hms m hm)]

/-- A class of the first table has the same open methods in both. -/
lemma Extends.openMethods (hd : s.class? c = some d) : t.openMethods c d = s.openMethods c d := by
  rw [ClassTable.openMethods, ClassTable.openMethods, ext.members self hd]
  have same : (s.members c d).filter (t.isOpen (s.members c d)) =
      (s.members c d).filter (s.isOpen (s.members c d)) :=
    List.filter_congr fun m hm =>
      ext.isOpen self (fun n hn => self.over_of_mem_members hd hn) hm
  simp only [same]

/-- Types over the first table compare strictly alike in both. -/
lemma Extends.strictSubtype {a b : Ty} (ha : a.Over s) (hb : b.Over s) :
    t.strictSubtype a b = s.strictSubtype a b := by
  rw [ClassTable.strictSubtype, ClassTable.strictSubtype, ext.subtype self ha hb,
    ext.subtype self hb ha]

/-- A method over the first table is added to candidates over it alike in both. -/
lemma Extends.addCandidate {cs : List Signature} (hm : m.Over s) (hcs : ∀ k ∈ cs, k.Over s) :
    t.addCandidate m cs = s.addCandidate m cs := by
  induction cs with
  | nil => rw [ClassTable.addCandidate, ClassTable.addCandidate]
  | cons c cs ih =>
    obtain ⟨hc, hcs⟩ := List.forall_mem_cons.1 hcs
    rw [ClassTable.addCandidate, ClassTable.addCandidate, ext.sameAs self hc hm,
      ext.strictSubtype self hm.returnType hc.returnType, ih hcs]

/-- Methods over the first table collapse to the same candidates in both. -/
lemma Extends.collapse {ms : List Signature} (hms : ∀ m ∈ ms, m.Over s) :
    t.collapse ms = s.collapse ms := by
  suffices from_ : ∀ cs : List Signature, (∀ k ∈ cs, k.Over s) →
      ms.foldlM (fun cs m => t.addCandidate m cs) cs =
        ms.foldlM (fun cs m => s.addCandidate m cs) cs from
    from_ [] (List.forall_mem_nil _)
  induction ms with
  | nil =>
    intro cs _
    rw [List.foldlM_nil, List.foldlM_nil]
  | cons m ms ih =>
    obtain ⟨hm, hms⟩ := List.forall_mem_cons.1 hms
    intro cs hcs
    rw [List.foldlM_cons, List.foldlM_cons, ext.addCandidate self hm hcs]
    refine Query.bind_congr fun r hr => ih hms r fun k hk => ?_
    rcases mem_of_addCandidate hr hk with rfl | hk
    · exact hm
    · exact hcs k hk

/-- The candidates of a class are the same query in both tables. -/
lemma Extends.candidates (hc : s.declares c = true) : t.candidates c = s.candidates c := by
  rw [ClassTable.candidates, ClassTable.candidates, ext.classes c hc]
  cases hd : s.class? c with
  | none => rfl
  | some d =>
    have found : (s.openMethods c d).foldlM (fun cs m => t.addCandidate m cs) [] =
        (s.openMethods c d).foldlM (fun cs m => s.addCandidate m cs) [] :=
      ext.collapse self fun m => self.over_of_mem_openMethods hd
    dsimp only
    rw [ext.openMethods self hd, found]

end Extends

end ClassTable

end LambdaTyping
