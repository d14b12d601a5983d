import LambdaTyping.Proofs.Lambda.Exactness
import Mathlib.Data.List.Forall2

/-!
# Labels stacked on a statement

Two labels on one statement name the same statement, so it makes no difference which of them a jump
goes by. The completion analysis agrees where neither label stands on a statement around the two
(`completes_of_redirected`), with one exception: a `do` loop takes a `continue` to the label that
stands directly on it only. So there is no exception where only `break`s go by the other label
(`completes_of_redirected_breaks`). The proof compares exits: those of a statement with some jumps
redirected are those of the statement with some jumps redirected (`Exits.Redirects`), and this is
kept by everything around it that does not take the jumps.
-/

namespace LambdaTyping

variable {a b : String} {conts : Prop}

namespace Jump

/-- The second jump is the first, or goes to `a` where the first goes to `b`: a `break` may, and a
`continue` only with `conts`. -/
inductive Redirects (a b : String) (conts : Prop) : Jump → Jump → Prop where
  | same {j} :
    Redirects a b conts j j
  | brk :
    Redirects a b conts (.brk (some b)) (.brk (some a))
  | cont :
    conts →
    Redirects a b conts (.cont (some b)) (.cont (some a))

/-- The jump goes to neither label. -/
def Avoids (a b : String) (j : Jump) : Prop :=
  j.label? ≠ some a ∧ j.label? ≠ some b

variable {j j' k : Jump}

/-- A jump without label goes to neither. -/
lemma avoids_of_label?_eq_none (h : j.label? = none) : j.Avoids a b := by
  simp [Avoids, h]

/-- A redirected jump still goes to a label. -/
lemma Redirects.isLabeled_iff (h : j.Redirects a b conts j') : j.isLabeled ↔ j'.isLabeled := by
  cases h with
  | _ => rfl

/-- A jump to neither label is not redirected, and none is redirected to be it. -/
lemma Redirects.eq_iff (h : j.Redirects a b conts j') (avoids : k.Avoids a b) : j' = k ↔ j = k := by
  cases h with
  | same => exact Iff.rfl
  | brk | cont =>
    refine iff_of_false ?_ ?_
    · rintro rfl
      exact avoids.1 rfl
    · rintro rfl
      exact avoids.2 rfl

/-- A jump to one of the labels stays one, and none becomes one. -/
lemma Redirects.brk_iff (h : j.Redirects a b conts j') :
    (j' = .brk (some b) ∨ j' = .brk (some a)) ↔ (j = .brk (some b) ∨ j = .brk (some a)) := by
  cases h with
  | same => exact Iff.rfl
  | brk | cont => simp

/-- Where only breaks are redirected, a `continue` stays as it is. -/
lemma Redirects.cont_iff (h : j.Redirects a b False j') {l : Option String} :
    j' = .cont l ↔ j = .cont l := by
  cases h with
  | same => exact Iff.rfl
  | brk => exact iff_of_false nofun nofun
  | cont absent => exact absent.elim

variable {js js' : List Jump}

/-- A jump to neither label is among some jumps if it is among them redirected. -/
lemma mem_iff_of_redirects (h : List.Forall₂ (Redirects a b conts) js js') (avoids : k.Avoids a b) :
    k ∈ js' ↔ k ∈ js := by
  induction h with
  | nil => rfl
  | cons head _ ih =>
    rw [List.mem_cons, List.mem_cons, eq_comm, head.eq_iff avoids, eq_comm, ih]

/-- Redirecting jumps leaves it open which of the labels a `break` goes to, but not whether one goes
to either. -/
lemma mem_brk_iff_of_redirects (h : List.Forall₂ (Redirects a b conts) js js') :
    (.brk (some b) ∈ js' ∨ .brk (some a) ∈ js') ↔
      (.brk (some b) ∈ js ∨ .brk (some a) ∈ js) := by
  induction h with
  | nil => rfl
  | cons head _ ih =>
    simp only [List.mem_cons, @eq_comm Jump (.brk _)]
    rw [or_or_or_comm, head.brk_iff, ih, or_or_or_comm]

/-- Where only breaks are redirected, the continues stay. -/
lemma mem_cont_iff_of_redirects (h : List.Forall₂ (Redirects a b False) js js')
    {l : Option String} : .cont l ∈ js' ↔ .cont l ∈ js := by
  induction h with
  | nil => rfl
  | cons head _ ih =>
    rw [List.mem_cons, List.mem_cons, eq_comm, head.cont_iff, eq_comm, ih]

/-- No `continue` is redirected to `b`. -/
lemma mem_cont_of_redirects (h : List.Forall₂ (Redirects a b conts) js js')
    (mem : .cont (some b) ∈ js') : .cont (some b) ∈ js := by
  induction h with
  | nil => exact mem
  | cons head _ ih =>
    rcases List.mem_cons.1 mem with rfl | mem
    · cases head with
      | same | cont => exact List.mem_cons_self
    · exact List.mem_cons_of_mem _ (ih mem)

end Jump

namespace Exits

/-- The second exits are the first, some jumps to `b` going to `a` instead, continues only with
`conts`. -/
structure Redirects (a b : String) (conts : Prop) (e e' : Exits) : Prop where
  normal : e'.normal = e.normal
  jumps : List.Forall₂ (Jump.Redirects a b conts) e.jumps e'.jumps

variable {e e' f f' : Exits} {es es' : List Exits}

/-- No jump needs to be redirected. -/
lemma redirects_self (e : Exits) : e.Redirects a b conts e :=
  ⟨rfl, List.forall₂_same.2 fun _ _ => .same⟩

/-- A jump to neither label is among the redirected ones if it was there before. -/
lemma Redirects.contains_eq (h : e.Redirects a b conts e') {j : Jump} (avoids : j.Avoids a b) :
    e'.jumps.contains j = e.jumps.contains j := by
  rw [Bool.eq_iff_iff, List.contains_iff_mem, List.contains_iff_mem]
  exact Jump.mem_iff_of_redirects h.jumps avoids

/-- Jumps are redirected in a sequence as they are in its parts. -/
lemma Redirects.andThen (he : e.Redirects a b conts e') (hf : f.Redirects a b conts f') :
    (e.andThen f).Redirects a b conts (e'.andThen f') :=
  ⟨by simp only [Exits.andThen, he.normal, hf.normal], List.rel_append he.jumps hf.jumps⟩

/-- Jumps are redirected in a choice as they are in its branches. -/
lemma Redirects.orElse (he : e.Redirects a b conts e') (hf : f.Redirects a b conts f') :
    (e.orElse f).Redirects a b conts (e'.orElse f') :=
  ⟨by simp only [Exits.orElse, he.normal, hf.normal], List.rel_append he.jumps hf.jumps⟩

/-- A `break` without label is not redirected. -/
lemma Redirects.breaks_eq (h : e.Redirects a b conts e') : e'.breaks = e.breaks :=
  h.contains_eq (Jump.avoids_of_label?_eq_none rfl)

/-- The jumps that pass a loop are redirected as all of them are. -/
lemma Redirects.filter_isLabeled (h : e.Redirects a b conts e') :
    List.Forall₂ (Jump.Redirects a b conts) (e.jumps.filter Jump.isLabeled)
      (e'.jumps.filter Jump.isLabeled) :=
  List.rel_filter (fun _ _ hj => hj.isLabeled_iff) h.jumps

/-- A loop under neither label does not take the jumps. -/
lemma Redirects.loop (h : e.Redirects a b conts e') {label : Option String} (ha : label ≠ some a)
    (hb : label ≠ some b) (kind : LoopKind) (unconditional : Bool) :
    (loop label kind unconditional e).Redirects a b conts (loop label kind unconditional e') := by
  refine ⟨?_, h.filter_isLabeled⟩
  have plain : e'.jumps.contains (.cont none) = e.jumps.contains (.cont none) :=
    h.contains_eq (Jump.avoids_of_label?_eq_none rfl)
  have named : e'.jumps.contains (.cont label) = e.jumps.contains (.cont label) :=
    h.contains_eq ⟨ha, hb⟩
  simp only [Exits.loop, continues, h.normal, h.breaks_eq, plain, named]

/-- A third label does not take the jumps. -/
lemma Redirects.labeled (h : e.Redirects a b conts e') {l : String} (ha : l ≠ a) (hb : l ≠ b) :
    (labeled l e).Redirects a b conts (labeled l e') := by
  refine ⟨?_, h.jumps⟩
  have named : e'.jumps.contains (.brk (some l)) = e.jumps.contains (.brk (some l)) :=
    h.contains_eq ⟨by simpa [Jump.label?] using ha, by simpa [Jump.label?] using hb⟩
  simp only [Exits.labeled, h.normal, named]

/-- A finalizer lets the redirected jumps of the body through where it let through the others. -/
lemma Redirects.finalized (he : e.Redirects a b conts e') (hf : f.Redirects a b conts f') :
    (finalized e f).Redirects a b conts (finalized e' f') := by
  refine ⟨by simp only [Exits.finalized, he.normal, hf.normal], List.rel_append hf.jumps ?_⟩
  rw [hf.normal]
  split
  · exact he.jumps
  · exact .nil

/-- What redirecting jumps does not change is the same for all exits in a list. -/
lemma map_eq_of_redirects {f : Exits → Bool}
    (kept : ∀ e e', e.Redirects a b conts e' → f e' = f e)
    (h : List.Forall₂ (Redirects a b conts) es es') : es'.map f = es.map f := by
  induction h with
  | nil => rfl
  | cons head _ ih => rw [List.map_cons, List.map_cons, kept _ _ head, ih]

/-- Jumps are redirected in a guarded body as they are in the body and the catches. -/
lemma Redirects.guarded (he : e.Redirects a b conts e')
    (hs : List.Forall₂ (Redirects a b conts) es es') :
    (guarded e es).Redirects a b conts (guarded e' es') := by
  induction hs generalizing e e' with
  | nil => exact he
  | cons head _ ih => exact ih (he.orElse head)

/-- Whether control gets off the end of a switch depends on where it gets off the ends of the arms.
-/
lemma switch_normal (arrows exhaustive : Bool) (es : List Exits) :
    (switch arrows exhaustive es).normal =
      (!exhaustive || (if arrows then (es.map normal).any id
        else (es.map normal).getLast?.getD true) || (es.map breaks).any id) := by
  cases last : es.getLast? with
  | none => simp [switch, last]
  | some e => simp [switch, last]

/-- A switch takes the breaks without label only. -/
lemma redirects_switch (arrows exhaustive : Bool)
    (h : List.Forall₂ (Redirects a b conts) es es') :
    (switch arrows exhaustive es).Redirects a b conts (switch arrows exhaustive es') := by
  refine ⟨?_, ?_⟩
  · rw [switch_normal, switch_normal, map_eq_of_redirects (fun _ _ he => he.normal) h,
      map_eq_of_redirects (fun _ _ he => he.breaks_eq) h]
  · refine List.rel_flatMap h fun e e' he => ?_
    refine List.rel_filter (fun j j' hj => ?_) he.jumps
    have unlabeled : j' = .brk none ↔ j = .brk none :=
      hj.eq_iff (Jump.avoids_of_label?_eq_none rfl)
    simp [unlabeled]

end Exits

namespace Stmt

mutual

/-- The second statement is the first with some of the statements in it, standing under neither
label, replaced by related ones. -/
inductive Replaced (a b : String) (P : Stmt → Stmt → Prop) : Stmt → Stmt → Prop where
  | here {s s'} :
    P s s' →
    Replaced a b P s s'
  | same {s} :
    Replaced a b P s s
  | ifThen {body body'} :
    ReplacedIn a b P body body' →
    Replaced a b P (.ifThen body) (.ifThen body')
  | ifThenElse {thenBody thenBody' elseBody elseBody'} :
    ReplacedIn a b P thenBody thenBody' →
    ReplacedIn a b P elseBody elseBody' →
    Replaced a b P (.ifThenElse thenBody elseBody) (.ifThenElse thenBody' elseBody')
  | block {body body'} :
    ReplacedIn a b P body body' →
    Replaced a b P (.block body) (.block body')
  | sync {body body'} :
    ReplacedIn a b P body body' →
    Replaced a b P (.sync body) (.sync body')
  | loop {kind unconditional body body'} :
    ReplacedIn a b P body body' →
    Replaced a b P (.loop kind body unconditional) (.loop kind body' unconditional)
  | labeled {l s s'} :
    l ≠ a →
    l ≠ b →
    Replaced a b P s s' →
    Replaced a b P (.labeled l s) (.labeled l s')
  | switch {arrows exhaustive arms arms'} :
    ReplacedInArms a b P arms arms' →
    Replaced a b P (.switch arms arrows exhaustive) (.switch arms' arrows exhaustive)
  | tryCatch {body body' catches catches'} :
    ReplacedIn a b P body body' →
    ReplacedInArms a b P catches catches' →
    Replaced a b P (.tryCatch body catches) (.tryCatch body' catches')
  | tryFinally {body body' catches catches' finalizer finalizer'} :
    ReplacedIn a b P body body' →
    ReplacedInArms a b P catches catches' →
    ReplacedIn a b P finalizer finalizer' →
    Replaced a b P (.tryFinally body catches finalizer) (.tryFinally body' catches' finalizer')

/-- The second list is the first with some statements replaced. -/
inductive ReplacedIn (a b : String) (P : Stmt → Stmt → Prop) : List Stmt → List Stmt → Prop where
  | nil :
    ReplacedIn a b P [] []
  | cons {s s' ss ss'} :
    Replaced a b P s s' →
    ReplacedIn a b P ss ss' →
    ReplacedIn a b P (s :: ss) (s' :: ss')

/-- The second arms are the first with some statements replaced. -/
inductive ReplacedInArms (a b : String) (P : Stmt → Stmt → Prop) :
    List (List Stmt) → List (List Stmt) → Prop where
  | nil :
    ReplacedInArms a b P [] []
  | cons {arm arm' arms arms'} :
    ReplacedIn a b P arm arm' →
    ReplacedInArms a b P arms arms' →
    ReplacedInArms a b P (arm :: arms) (arm' :: arms')

end

variable {P : Stmt → Stmt → Prop}

mutual

/-- Where the exits of related statements differ in redirected jumps, so do those of the statements
that are made of them. -/
lemma Replaced.redirects {s s' : Stmt} (h : Replaced a b P s s')
    (related : ∀ s s', P s s' → ∀ label, (s.exits label).Redirects a b conts (s'.exits label))
    {label : Option String} (ha : label ≠ some a) (hb : label ≠ some b) :
    (s.exits label).Redirects a b conts (s'.exits label) := by
  match h with
  | .here h => exact related _ _ h label
  | .same => exact Exits.redirects_self _
  | .ifThen body => exact (Exits.redirects_self _).orElse (body.redirects related)
  | .ifThenElse thenBody elseBody =>
    exact (thenBody.redirects related).orElse (elseBody.redirects related)
  | .block body => exact body.redirects related
  | .sync body => exact body.redirects related
  | .loop body => exact (body.redirects related).loop ha hb _ _
  | .labeled la lb h =>
    exact (h.redirects related (by simpa using la) (by simpa using lb)).labeled la lb
  | .switch arms => exact Exits.redirects_switch _ _ (arms.redirects related)
  | .tryCatch body catches =>
    exact (body.redirects related).guarded (catches.redirects related)
  | .tryFinally body catches finalizer =>
    have guarded := (body.redirects related).guarded (catches.redirects related)
    exact guarded.finalized (finalizer.redirects related)

/-- The exits of related lists of statements differ in redirected jumps. -/
lemma ReplacedIn.redirects {ss ss' : List Stmt} (h : ReplacedIn a b P ss ss')
    (related : ∀ s s', P s s' → ∀ label, (s.exits label).Redirects a b conts (s'.exits label)) :
    (exitsOf ss).Redirects a b conts (exitsOf ss') := by
  match h with
  | .nil => exact Exits.redirects_self _
  | .cons head tail =>
    exact (head.redirects related (by simp) (by simp)).andThen (tail.redirects related)

/-- The exits of related arms differ in redirected jumps, arm by arm. -/
lemma ReplacedInArms.redirects {arms arms' : List (List Stmt)}
    (h : ReplacedInArms a b P arms arms')
    (related : ∀ s s', P s s' → ∀ label, (s.exits label).Redirects a b conts (s'.exits label)) :
    List.Forall₂ (Exits.Redirects a b conts) (exitsOfArms arms) (exitsOfArms arms') := by
  match h with
  | .nil => exact .nil
  | .cons head tail => exact .cons (head.redirects related) (tail.redirects related)

end

/-- The statement under the label `b`, and that under the label `a`. -/
def stacked (a b : String) (s : Stmt) : Stmt :=
  .labeled a (.labeled b s)

/-- A jump to `b` and the same jump to `a`. -/
inductive RedirectsJump (a b : String) : Stmt → Stmt → Prop where
  | brk :
    RedirectsJump a b (.brk (some b)) (.brk (some a))
  | cont :
    RedirectsJump a b (.cont (some b)) (.cont (some a))

/-- A `break` to `b` and one to `a`. -/
inductive RedirectsBreak (a b : String) : Stmt → Stmt → Prop where
  | brk :
    RedirectsBreak a b (.brk (some b)) (.brk (some a))

/-- A round of a `do` loop under the labels leads out of the loop: control gets to the test at its
end, or a `break` ends the loop. -/
def LeadsOut (a b : String) (round : List Stmt) : Prop :=
  (exitsOf round).normal = true ∨
    ∃ j ∈ [.cont none, .cont (some b), .brk none, .brk (some b), .brk (some a)],
      j ∈ (exitsOf round).jumps

/-- A redirected jump, as a statement, has the redirected jump as its exit. -/
lemma RedirectsJump.redirects {s s' : Stmt} (h : RedirectsJump a b s s') (label : Option String) :
    (s.exits label).Redirects a b True (s'.exits label) := by
  cases h with
  | brk => exact ⟨rfl, .cons .brk .nil⟩
  | cont => exact ⟨rfl, .cons (.cont trivial) .nil⟩

/-- A redirected `break` redirects no `continue`. -/
lemma RedirectsBreak.redirects {s s' : Stmt} (h : RedirectsBreak a b s s')
    (label : Option String) : (s.exits label).Redirects a b False (s'.exits label) := by
  cases h with
  | brk => exact ⟨rfl, .cons .brk .nil⟩

/-- A redirected `break` is a redirected jump. -/
lemma RedirectsBreak.redirectsJump {s s' : Stmt} (h : RedirectsBreak a b s s') :
    RedirectsJump a b s s' := by
  cases h with
  | brk => exact .brk

/-- The label directly on a statement does not change which jumps leave it. -/
lemma jumps_exits_eq (s : Stmt) (l l' : Option String) :
    (s.exits l).jumps = (s.exits l').jumps := by
  cases s <;> rfl

/-- The label directly on a statement matters to a `do` loop only. -/
lemma exits_eq_of_not_doWhile {s : Stmt} (h : ∀ round, s ≠ .loop .doWhile round false)
    (l l' : Option String) : s.exits l = s.exits l' := by
  cases s with
  | loop kind round unconditional =>
    cases kind with
    | whileDo => rfl
    | doWhile =>
      cases unconditional with
      | true => simp [exits, Exits.loop]
      | false => exact absurd rfl (h round)
  | _ => rfl

/-- Control gets off the end of a statement under two labels if it does under the inner one, or if a
`break` goes to one of them. -/
lemma normal_exits_stacked_iff {s : Stmt} {label : Option String} :
    ((stacked a b s).exits label).normal = true ↔
      (s.exits (some b)).normal = true ∨
        (.brk (some b) ∈ (s.exits none).jumps ∨ .brk (some a) ∈ (s.exits none).jumps) := by
  rw [s.jumps_exits_eq none (some b)]
  simp [stacked, exits, Exits.labeled, or_assoc]

/-- Control gets off the end of a conditional `do` loop under two labels if its rounds lead out. -/
lemma normal_exits_stacked_doWhile_iff {round : List Stmt} {label : Option String} :
    ((stacked a b (.loop .doWhile round false)).exits label).normal = true ↔
      LeadsOut a b round := by
  rw [normal_exits_stacked_iff]
  simp [exits, Exits.loop, Exits.continues, Exits.breaks, LeadsOut, Jump.isLabeled, or_assoc]

section LeadsOut

variable {round round' : List Stmt}

/-- The ways out of a loop, the `continue` to its own label first. -/
lemma leadsOut_iff :
    LeadsOut a b round ↔
      .cont (some b) ∈ (exitsOf round).jumps ∨ (exitsOf round).normal = true ∨
        .cont none ∈ (exitsOf round).jumps ∨ .brk none ∈ (exitsOf round).jumps ∨
          .brk (some b) ∈ (exitsOf round).jumps ∨ .brk (some a) ∈ (exitsOf round).jumps := by
  simp only [LeadsOut, List.mem_cons, List.not_mem_nil, or_false, exists_eq_or_imp, exists_eq_left]
  tauto

/-- Redirecting jumps keeps all ways out of a loop but the `continue` to its own label. -/
lemma leadsOut_iff_of_redirects (h : (exitsOf round).Redirects a b conts (exitsOf round')) :
    LeadsOut a b round' ↔
      .cont (some b) ∈ (exitsOf round').jumps ∨ (exitsOf round).normal = true ∨
        .cont none ∈ (exitsOf round).jumps ∨ .brk none ∈ (exitsOf round).jumps ∨
          .brk (some b) ∈ (exitsOf round).jumps ∨ .brk (some a) ∈ (exitsOf round).jumps := by
  have kept {j : Jump} (unlabeled : j.label? = none) :
      j ∈ (exitsOf round').jumps ↔ j ∈ (exitsOf round).jumps :=
    Jump.mem_iff_of_redirects h.jumps (Jump.avoids_of_label?_eq_none unlabeled)
  rw [leadsOut_iff, h.normal, @kept (.cont none) rfl, @kept (.brk none) rfl,
    Jump.mem_brk_iff_of_redirects h.jumps]

/-- A round with some jumps to `b` redirected leads out of the loop only if it did before. -/
lemma leadsOut_of_redirects (h : (exitsOf round).Redirects a b conts (exitsOf round'))
    (out : LeadsOut a b round') : LeadsOut a b round := by
  rw [leadsOut_iff_of_redirects h] at out
  exact leadsOut_iff.2 (out.imp_left (Jump.mem_cont_of_redirects h.jumps))

/-- A round with some breaks to `b` redirected still leads out of the loop. -/
lemma leadsOut_of_redirects_breaks (h : (exitsOf round).Redirects a b False (exitsOf round'))
    (out : LeadsOut a b round) : LeadsOut a b round' := by
  rw [leadsOut_iff] at out
  exact (leadsOut_iff_of_redirects h).2 (out.imp_left (Jump.mem_cont_iff_of_redirects h.jumps).2)

end LeadsOut

/-- Jumps to the inner of two stacked labels may go to the outer, if a `do` loop is still led out of
by its rounds. -/
lemma redirects_stacked {s s' : Stmt} (h : s.Replaced a b P s')
    (jumps : ∀ u u', P u u' → RedirectsJump a b u u')
    (out : ∀ round round', s = .loop .doWhile round false → s' = .loop .doWhile round' false →
      LeadsOut a b round → LeadsOut a b round') (label : Option String) :
    ((stacked a b s).exits label).Redirects a b True ((stacked a b s').exits label) := by
  have single (u u' : Stmt) (h : P u u') (label : Option String) :
      (u.exits label).Redirects a b True (u'.exits label) :=
    (jumps u u' h).redirects label
  have bare : (s.exits none).Redirects a b True (s'.exits none) :=
    h.redirects single (by simp) (by simp)
  refine ⟨?_, ?_⟩
  · rw [Bool.eq_iff_iff]
    -- Only a conditional `do` loop looks at the label directly on it.
    by_cases doWhile : ∃ round, s = .loop .doWhile round false
    · obtain ⟨round, rfl⟩ := doWhile
      cases h with
      | here h => cases jumps _ _ h
      | same => rfl
      | @loop _ _ _ round' body =>
        rw [normal_exits_stacked_doWhile_iff, normal_exits_stacked_doWhile_iff]
        exact ⟨leadsOut_of_redirects (body.redirects single), out round round' rfl rfl⟩
    · have other : ∀ round, s ≠ .loop .doWhile round false := fun round e => doWhile ⟨round, e⟩
      have other' : ∀ round, s' ≠ .loop .doWhile round false := by
        rintro round rfl
        cases h with
        | here h => cases jumps _ _ h
        | same => exact other _ rfl
        | loop => exact other _ rfl
      rw [normal_exits_stacked_iff, normal_exits_stacked_iff, exits_eq_of_not_doWhile other _ none,
        exits_eq_of_not_doWhile other' _ none, bare.normal,
        Jump.mem_brk_iff_of_redirects bare.jumps]
  · have jumps : List.Forall₂ (Jump.Redirects a b True) (s.exits (some b)).jumps
        (s'.exits (some b)).jumps := by
      rw [s.jumps_exits_eq (some b) none, s'.jumps_exits_eq (some b) none]
      exact bare.jumps
    exact jumps

/-- Redirecting breaks leaves a `do` loop led out of as it was. -/
lemma leadsOut_of_replaced_breaks {s s' : Stmt} (h : s.Replaced a b (RedirectsBreak a b) s')
    {round round' : List Stmt} (hs : s = .loop .doWhile round false)
    (hs' : s' = .loop .doWhile round' false) (out : LeadsOut a b round) : LeadsOut a b round' := by
  subst hs
  cases h with
  | here h => cases h
  | same =>
    cases hs'
    exact out
  | loop body =>
    cases hs'
    exact leadsOut_of_redirects_breaks (body.redirects fun _ _ h => h.redirects) out

/-- Whether a body completes depends on the exits of a statement in it up to redirected jumps. -/
lemma completes_eq_of_replaced {body body' : List Stmt} (h : ReplacedIn a b P body body')
    (related : ∀ s s', P s s' → ∀ label, (s.exits label).Redirects a b True (s'.exits label)) :
    (Body.block body').completes = (Body.block body).completes :=
  (h.redirects related).normal

end Stmt

section Redirected

open Stmt

/-- It makes no difference to whether a body completes which of two labels on one statement a jump
goes to. The first statement has jumps to `b` where the second has jumps to `a`; the bodies are the
same but that in the one the first statement stands under the labels, in the other the second. No
statement around these has one of the labels, and if they are `do` loops, the rounds of the second
lead out of it if those of the first do. -/
theorem completes_of_redirected {s s' : Stmt} {body body' : List Stmt}
    (jumps : s.Replaced a b (RedirectsJump a b) s')
    (out : ∀ round round', s = .loop .doWhile round false → s' = .loop .doWhile round' false →
      LeadsOut a b round → LeadsOut a b round')
    (around : ReplacedIn a b (fun u u' => u = stacked a b s ∧ u' = stacked a b s') body body') :
    (Body.block body').completes = (Body.block body).completes := by
  refine completes_eq_of_replaced around fun u u' h label => ?_
  obtain ⟨rfl, rfl⟩ := h
  exact redirects_stacked jumps (fun _ _ h => h) out label

/-- A `break` may go to either of two labels on one statement, a conditional `do` loop included:
whether a body completes does not depend on it. -/
theorem completes_of_redirected_breaks {s s' : Stmt} {body body' : List Stmt}
    (breaks : s.Replaced a b (RedirectsBreak a b) s')
    (around : ReplacedIn a b (fun u u' => u = stacked a b s ∧ u' = stacked a b s') body body') :
    (Body.block body').completes = (Body.block body).completes := by
  refine completes_eq_of_replaced around fun u u' h label => ?_
  obtain ⟨rfl, rfl⟩ := h
  exact redirects_stacked breaks (fun _ _ h => h.redirectsJump)
    (fun _ _ => leadsOut_of_replaced_breaks breaks) label

/-- The loop `do { if (c) continue l; switch (x) { default -> break l; } continue b; } while (d)` -/
def retryingLoop (l : String) : Stmt :=
  .loop .doWhile [.ifThen [.cont (some l)], .switch [[.brk (some l)]] true true, .cont (some "b")]
    false

/-- The body `x: while (true) { try { a: b: s break x; } finally { ; } }` -/
def guardedBody (s : Stmt) : List Stmt :=
  [.labeled "x"
    (.loop .whileDo [.tryFinally [stacked "a" "b" s, .brk (some "x")] [] [.other]] true)]

/-- The retrying loop in the guarded body completes alike by either label, though it continues and
breaks. -/
theorem completes_of_redirected_retryingLoop :
    (retryingLoop "b").Replaced "a" "b" (RedirectsJump "a" "b") (retryingLoop "a") ∧
      (∀ round round', retryingLoop "b" = .loop .doWhile round false →
        retryingLoop "a" = .loop .doWhile round' false →
          LeadsOut "a" "b" round → LeadsOut "a" "b" round') ∧
      ReplacedIn "a" "b"
        (fun u u' => u = stacked "a" "b" (retryingLoop "b") ∧
          u' = stacked "a" "b" (retryingLoop "a"))
        (guardedBody (retryingLoop "b")) (guardedBody (retryingLoop "a")) ∧
      (Body.block (guardedBody (retryingLoop "a"))).completes =
        (Body.block (guardedBody (retryingLoop "b"))).completes := by
  have jumps : (retryingLoop "b").Replaced "a" "b" (RedirectsJump "a" "b") (retryingLoop "a") := by
    have first : ReplacedIn "a" "b" (RedirectsJump "a" "b") [.cont (some "b")] [.cont (some "a")] :=
      .cons (.here .cont) .nil
    have second : ReplacedIn "a" "b" (RedirectsJump "a" "b") [.brk (some "b")] [.brk (some "a")] :=
      .cons (.here .brk) .nil
    exact .loop (.cons (.ifThen first) (.cons (.switch (.cons second .nil)) (.cons .same .nil)))
  have out : ∀ round round', retryingLoop "b" = .loop .doWhile round false →
      retryingLoop "a" = .loop .doWhile round' false →
        LeadsOut "a" "b" round → LeadsOut "a" "b" round' := by
    rintro round round' - h -
    cases h
    exact .inr ⟨.cont (some "b"), by simp, by decide⟩
  have around : ReplacedIn "a" "b"
      (fun u u' => u = stacked "a" "b" (retryingLoop "b") ∧
        u' = stacked "a" "b" (retryingLoop "a"))
      (guardedBody (retryingLoop "b")) (guardedBody (retryingLoop "a")) := by
    refine .cons (.labeled (by decide) (by decide) ?_) .nil
    refine .loop (.cons (.tryFinally ?_ .nil ?_) .nil)
    · exact .cons (.here ⟨rfl, rfl⟩) (.cons .same .nil)
    · exact .cons .same .nil
  exact ⟨jumps, out, around, completes_of_redirected jumps out around⟩

/-- The loop `do { continue l; } while (c);` -/
def continuedLoop (l : String) : Stmt :=
  .loop .doWhile [.cont (some l)] false

/-- The body `b: while (true) { a: b: { break l; } }` -/
def relabeledBody (l : String) : List Stmt :=
  [.labeled "b" (.loop .whileDo [stacked "a" "b" (.block [.brk (some l)])] true)]

/-- A `do` loop under two labels does not take a `continue` to the outer one, and a loop around them
with the label `b` again takes the jumps to `b` for its own. -/
theorem stacked_labels_told_apart :
    (continuedLoop "b").Replaced "a" "b" (RedirectsJump "a" "b") (continuedLoop "a") ∧
      (∀ l, ¬(continuedLoop "b").Declares l) ∧
      (Body.block [stacked "a" "b" (continuedLoop "b")]).completes = true ∧
      (Body.block [stacked "a" "b" (continuedLoop "a")]).completes = false ∧
      (Stmt.block [.brk (some "b")]).Replaced "a" "b" (RedirectsJump "a" "b")
        (.block [.brk (some "a")]) ∧
      (∀ l, ¬(Stmt.block [.brk (some "b")]).Declares l) ∧
      (Body.block (relabeledBody "b")).completes = true ∧
      (Body.block (relabeledBody "a")).completes = false := by
  have leaf (l : String) (s : Stmt) (none : s.blocks = []) (bare : ¬s.IsLabeled) :
      s.Everywhere (Bare l) :=
    .of_blocks (by rintro body rfl; exact bare trivial) (by simp [none])
  have loop (l : String) : (continuedLoop "b").Everywhere (Bare l) := by
    refine .of_blocks (by simp [continuedLoop, Bare]) ?_
    simpa [continuedLoop, blocks] using leaf l (.cont (some "b")) rfl id
  have block (l : String) : (Stmt.block [.brk (some "b")]).Everywhere (Bare l) := by
    refine .of_blocks (by simp [Bare]) ?_
    simpa [blocks] using leaf l (.brk (some "b")) rfl id
  exact ⟨.loop (.cons (.here .cont) .nil), fun l => not_declares_of_bare (loop l), by decide,
    by decide, .block (.cons (.here .brk) .nil), fun l => not_declares_of_bare (block l), by decide,
    by decide⟩

end Redirected

end LambdaTyping
