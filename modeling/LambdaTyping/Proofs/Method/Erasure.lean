import LambdaTyping.Proofs.Hierarchy.Closure
import LambdaTyping.Proofs.Method.Candidates

/-!
# Signatures up to erasure

Methods are compared by their names and by the erasures of their parameter types. Erasure comes to
an end on every table and is a projection, so to compare methods is to compare their erased
signatures (`erasure_projects`). A raw use of a class puts erasures in the place of type parameters,
so methods that are inherited through raw types keep their erased signatures
(`raw_view_keeps_erasure`).
-/

namespace LambdaTyping

namespace Signature

/-- The signature with its parameter types erased. -/
def erased (m : Signature) (t : ClassTable) : Signature :=
  { m with params := m.erasedParams t }

variable {t : ClassTable}

/-- Erasing a signature twice is erasing it once. -/
lemma erased_erased (m : Signature) (t : ClassTable) : (m.erased t).erased t = m.erased t := by
  have params : (m.erasedParams t).map t.erasure = m.erasedParams t := by
    rw [erasedParams, List.map_map]
    exact List.map_congr_left fun p _ => t.erasure_erasure p
  rw [erased, erasedParams, erased, params]

/-- A method has the signature of its erased form. -/
lemma sameAs_erased (m : Signature) (t : ClassTable) : m.sameAs t (m.erased t) = true :=
  sameAs_iff.2 (congrArg (fun n : Signature => (n.name, n.params)) (m.erased_erased t)).symm

/-- To have one signature is an equivalence of methods. -/
lemma sameAs_equivalence (t : ClassTable) : Equivalence fun m n : Signature => m.sameAs t n := by
  simp only [sameAs_iff]
  exact eq_equivalence.comap (key t)

/-- A method that is seen through a raw type has the erased parameter types that it is declared
with. -/
lemma erasedParams_ofMethod_raw (owner : ClassId) (d : ClassDecl) {m : MethodDecl}
    (normal : ∀ p ∈ m.params, p.Normal) :
    (ofMethod owner m (t.instantiate d [])).erasedParams t = m.params.map t.erasure := by
  rw [erasedParams, ofMethod, List.map_map]
  exact List.map_congr_left fun p hp => t.erasure_instantiate_raw d (normal p hp)

end Signature

namespace ClassTable

variable {t : ClassTable}

/-- Whatever cycles there are in bounds, the erasure of a type is found in one way, by no more calls
than lead down the type and down the first bound of each type parameter. It is an erased type, and
erased types are what erasure leaves alone. To have the same signature is therefore an equivalence
of methods, in which each method stands for its erased signature, and erased signatures are the same
if they have one name and the same parameter types. -/
theorem erasure_projects (t : ClassTable) :
    (∀ x : Ty, ∃ n ≤ x.spine + t.callsOutside [],
        ∀ y k, t.Erases [] x y k ↔ y = t.erasure x ∧ k = n) ∧
      (∀ x, (t.erasure x).IsErased ∧ t.erasure (t.erasure x) = t.erasure x ∧
        (t.erasure x = x ↔ x.IsErased)) ∧
      Equivalence (fun m n : Signature => m.sameAs t n) ∧
      ∀ m n : Signature, (m.erased t).erased t = m.erased t ∧ m.sameAs t (m.erased t) ∧
        (m.sameAs t n ↔ m.name = n.name ∧ (m.erased t).params = (n.erased t).params) := by
  refine ⟨fun x => ?_, fun x => ⟨t.isErased_erasure x, t.erasure_erasure x, erasure_eq_self_iff⟩,
    Signature.sameAs_equivalence t, fun m n => ⟨m.erased_erased t, m.sameAs_erased t, ?_⟩⟩
  · obtain ⟨n, run⟩ := t.exists_erases [] x
    refine ⟨n, run.calls_le, fun y k => ⟨run.unique, ?_⟩⟩
    rintro ⟨rfl, rfl⟩
    exact run
  · exact Signature.sameAs_iff.trans Prod.mk_inj

/-- In a raw use of a class every type that is declared keeps its erasure. So a method that a class
has from a raw type above it is a method declared there, with the erased parameter types of the
declaration. -/
theorem raw_view_keeps_erasure (normal : t.Normal) :
    (∀ (d : ClassDecl) (x : Ty), x.Normal →
        t.erasure ((t.instantiate d []).apply x) = t.erasure x) ∧
      ∀ c d, ∀ m ∈ t.members c d, ⟨m.signature.owner, []⟩ ∈ t.closure (selfType c d) →
        ∃ o, t.class? m.signature.owner = some o ∧ ∃ decl ∈ o.methods,
          m = ⟨.ofMethod m.signature.owner decl (t.instantiate o []), decl.kind⟩ ∧
            m.signature.erasedParams t = decl.params.map t.erasure := by
  refine ⟨fun d x hx => t.erasure_instantiate_raw d hx, fun c d m hm raw => ?_⟩
  obtain ⟨e, he, o, ho, decl, hdecl, rfl⟩ := exists_of_mem_members hm
  -- The class stands above in one instantiation only, which is the raw one.
  have unique : e = ⟨e.head, []⟩ := List.inj_on_of_nodup_map (t.nodup_closureFrom [] [_]) he raw rfl
  have noArgs : e.args = [] := congrArg ClassTy.args unique
  rw [noArgs]
  refine ⟨o, ho, decl, hdecl, rfl, Signature.erasedParams_ofMethod_raw _ o fun p hp => ?_⟩
  exact normal.methods o (mem_classes_of_class? ho) decl hdecl p (List.mem_cons_of_mem _ hp)

/-- `Object`, `Comparable<E>`, `Node<N extends Node<N, A, B>, A extends B[], B extends A>` of the
method `void link(N[], N & Node, A & N, Comparable<? extends B>)` and `Heir extends Node`, in this
order. -/
def rings : ClassTable where
  classes := #[
    ⟨"Object", .cls, [], none, [], []⟩,
    ⟨"Comparable", .interface, [⟨0⟩], none, [], []⟩,
    ⟨"Node", .interface, [⟨1⟩, ⟨2⟩, ⟨3⟩], none, [],
      [⟨"link", [], [.array (.var ⟨1⟩), .inter [.var ⟨1⟩, .cls ⟨2⟩ []],
        .inter [.var ⟨2⟩, .var ⟨1⟩], .cls ⟨1⟩ [.wildExtends (.var ⟨3⟩)]], .void, .abstract⟩]⟩,
    ⟨"Heir", .interface, [], none, [.cls ⟨2⟩ []], []⟩]
  params := #[⟨"E", [], none⟩, ⟨"N", [.cls ⟨2⟩ [.var ⟨1⟩, .var ⟨2⟩, .var ⟨3⟩]], none⟩,
    ⟨"A", [.array (.var ⟨3⟩)], none⟩, ⟨"B", [.var ⟨2⟩], none⟩]
  index := ∅
  wellKnown := ⟨⟨0⟩, ⟨0⟩, ⟨0⟩, ⟨0⟩, ⟨0⟩, ⟨0⟩⟩

/-- The method `link` as it is seen from `Heir`. -/
def ringsLink : Member where
  signature := ⟨⟨2⟩, "link", [.array (.cls ⟨2⟩ []), .cls ⟨2⟩ [],
    .inter [.array (.cls ⟨0⟩ []), .cls ⟨2⟩ []],
    .cls ⟨1⟩ [.wildExtends (.array (.cls ⟨0⟩ []))]], [], .void⟩
  kind := .abstract

/-- Seen from `Heir`, the intersection `N & Node` is `Node`, and `A` and `B`, whose bounds form a
cycle, are `Object[]`. The erased parameter types of `link` are those of the declaration. -/
theorem raw_view_keeps_erasure_rings :
    rings.Normal ∧
      rings.erasure ((rings.instantiate rings.classes[2] []).apply (.inter [.var ⟨2⟩, .var ⟨1⟩])) =
        .array (.cls ⟨0⟩ []) ∧
      ringsLink ∈ rings.members ⟨3⟩ rings.classes[3] ∧
      ⟨⟨2⟩, []⟩ ∈ rings.closure (selfType ⟨3⟩ rings.classes[3]) ∧
      ringsLink.signature.erasedParams rings =
        [.array (.cls ⟨2⟩ []), .cls ⟨2⟩ [], .array (.cls ⟨0⟩ []), .cls ⟨1⟩ []] := by
  have normal : rings.Normal := by decide +kernel
  have members : rings.members ⟨3⟩ rings.classes[3] = [ringsLink] := by cbv
  have closure : rings.closure (selfType ⟨3⟩ rings.classes[3]) =
      [⟨⟨3⟩, []⟩, ⟨⟨2⟩, []⟩, ⟨⟨0⟩, []⟩] := by
    cbv
  have found : ringsLink ∈ rings.members ⟨3⟩ rings.classes[3] := members ▸ List.mem_singleton_self _
  have raw : (⟨⟨2⟩, []⟩ : ClassTy) ∈ rings.closure (selfType ⟨3⟩ rings.classes[3]) := by
    rw [closure]
    decide
  obtain ⟨types, inherited⟩ := raw_view_keeps_erasure normal
  obtain ⟨o, ho, decl, hdecl, -, erased⟩ := inherited _ _ ringsLink found raw
  cases ho
  obtain rfl := List.mem_singleton.1 hdecl
  refine ⟨normal, ?_, found, raw, ?_⟩
  · rw [types rings.classes[2] _ (by decide)]
    cbv
  · rw [erased]
    cbv

end ClassTable

end LambdaTyping
