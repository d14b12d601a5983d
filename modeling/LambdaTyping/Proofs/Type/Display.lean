import LambdaTyping.Proofs.Type.Presentable
import LambdaTyping.Table.Platform
import LambdaTyping.Type.Display

/-!
# Reading types as they are displayed

Presentable types that are displayed alike are the same (`display_injective`), as long as the names
in them are words and no two things have one name. The display of a type can be told from the text
that follows it as soon as that text starts with a character at which the type must end. Which ones
these are depends on the place where the type stands: a blank ends a member of an intersection, but
not a type argument, which may be an intersection itself.
-/

namespace LambdaTyping

/-! ### Words -/

/-- The characters that set the names in a type apart. -/
def separators : List Char := ['<', '>', '[', ']', ',', '&', '?', ' ']

/-- Some characters, none of them a separator, as in a name of letters, digits, underscores and
dots. -/
def IsWord (s : String) : Prop :=
  s.toList ≠ [] ∧ ∀ c ∈ s.toList, c ∉ separators

instance (s : String) : Decidable (IsWord s) :=
  decidable_of_iff (s.toList ≠ [] ∧ s.toList.all (· ∉ separators) = true) (by simp [IsWord])

/-- The keywords among the displays of types. -/
def keywords : List String :=
  "void" :: "null" :: Primitive.all.map Primitive.keyword

/-- The keywords are words. -/
lemma isWord_of_mem_keywords : ∀ w ∈ keywords, IsWord w := by
  decide

/-- The keyword of a primitive type is one of the keywords. -/
lemma Primitive.keyword_mem_keywords (p : Primitive) : p.keyword ∈ keywords := by
  cases p <;> decide

/-- The type a keyword displays. -/
def Ty.ofKeyword? (w : String) : Option Ty :=
  if w = "void" then some .void
  else if w = "null" then some .null
  else (Primitive.ofKeyword? w).map .prim

/-- A primitive type is found by its keyword. -/
lemma Ty.ofKeyword?_keyword (p : Primitive) : Ty.ofKeyword? p.keyword = some (.prim p) := by
  cases p <;> decide

/-- The name a class or a type parameter is shown by. -/
def ClassTable.nameOf (t : ClassTable) : Referent → String
  | .cls c => t.className c
  | .param v => t.paramName v

/-- The table shows the classes and type parameters by words other than the keywords, no two of
them by one word. These may be all that the table holds, or only those in sight. -/
structure ClassTable.NamesApart (t : ClassTable) (ns : List Referent) : Prop where
  word : ∀ n ∈ ns, IsWord (t.nameOf n) ∧ t.nameOf n ∉ keywords
  distinct : ∀ n ∈ ns, ∀ m ∈ ns, t.nameOf n = t.nameOf m → n = m

instance (t : ClassTable) (ns : List Referent) : Decidable (t.NamesApart ns) :=
  decidable_of_iff
    ((∀ n ∈ ns, IsWord (t.nameOf n) ∧ t.nameOf n ∉ keywords) ∧
      ∀ n ∈ ns, ∀ m ∈ ns, t.nameOf n = t.nameOf m → n = m)
    ⟨fun ⟨word, distinct⟩ => ⟨word, distinct⟩, fun ⟨word, distinct⟩ => ⟨word, distinct⟩⟩

/-- The text is empty or starts with one of the characters. -/
def StartsIn (cs u : List Char) : Prop :=
  ∀ c ∈ u.head?, c ∈ cs

/-- The empty text starts with none but allowed characters. -/
@[simp] lemma startsIn_nil (cs : List Char) : StartsIn cs [] := nofun

/-- A text starts with one of the characters if its first character is one of them. -/
@[simp] lemma startsIn_cons {cs u : List Char} {c : Char} : StartsIn cs (c :: u) ↔ c ∈ cs := by
  simp [StartsIn]

/-- What starts with one of some characters starts with one of more. -/
lemma StartsIn.mono {cs ds u : List Char} (h : StartsIn cs u) (sub : cs ⊆ ds) : StartsIn ds u :=
  fun c hc => sub (h c hc)

/-- A word ends where a separator comes. -/
lemma word_append_inj {w w' u v : List Char} (hw : ∀ c ∈ w, c ∉ separators)
    (hw' : ∀ c ∈ w', c ∉ separators) (hu : StartsIn separators u) (hv : StartsIn separators v)
    (h : w ++ u = w' ++ v) : w = w' ∧ u = v := by
  induction w generalizing w' with
  | nil =>
    cases w' with
    | nil => exact ⟨rfl, h⟩
    | cons c w' =>
      obtain rfl : u = c :: (w' ++ v) := h
      exact absurd (startsIn_cons.1 hu) (hw' c List.mem_cons_self)
  | cons c w ih =>
    cases w' with
    | nil =>
      obtain rfl : c :: (w ++ u) = v := h
      exact absurd (startsIn_cons.1 hv) (hw c List.mem_cons_self)
    | cons c' w' =>
      obtain ⟨rfl, tails⟩ : c = c' ∧ w ++ u = w' ++ v := List.cons_eq_cons.1 h
      obtain ⟨rfl, rest⟩ := ih (fun x hx => hw x (List.mem_cons_of_mem _ hx))
        (fun x hx => hw' x (List.mem_cons_of_mem _ hx)) tails
      exact ⟨rfl, rest⟩

/-! ### Displays as lists of characters -/

namespace ClassTable

variable (t : ClassTable)

/-- The characters a type is displayed by. -/
def spell (a : Ty) : List Char :=
  (t.display a).toList

/-- The characters of some types, each behind a separator. -/
def spellRest (separator : List Char) : List Ty → List Char
  | [] => []
  | a :: as => separator ++ (t.spell a ++ spellRest separator as)

/-- The characters of type arguments between angle brackets. -/
def spellArgs : List Ty → List Char
  | [] => []
  | a :: as => '<' :: (t.spell a ++ (t.spellRest [',', ' '] as ++ ['>']))

/-- The characters of the brackets behind an array. -/
def brackets (rank : Nat) : List Char :=
  (List.replicate rank ['[', ']']).flatten

/-- The display of types behind separators, character by character. -/
lemma toList_displayRest (separator : String) (as : List Ty) :
    (t.displayRest separator as).toList = t.spellRest separator.toList as := by
  induction as with
  | nil => rfl
  | cons a as ih =>
    rw [displayRest, String.toList_append, String.toList_append, ih, List.append_assoc]
    rfl

/-- A class type is spelled by its class, then its arguments. -/
lemma spell_cls (c : ClassId) (args : List Ty) :
    t.spell (.cls c args) = t.spell (.cls c []) ++ t.spellArgs args := by
  cases args with
  | nil => exact (List.append_nil _).symm
  | cons a as =>
    simp only [spell, display, String.toList_append, toList_displayRest, List.append_assoc]
    rfl

/-- A type is spelled by its bare form, then its arguments. -/
lemma spell_bare (a : Ty) : t.spell a = t.spell a.bare ++ t.spellArgs a.args := by
  cases a with
  | cls c args => exact t.spell_cls c args
  | _ => exact (List.append_nil _).symm

/-- The unknown type is spelled with an angle bracket at its front. -/
lemma spell_unknown : t.spell .unknown = '<' :: "unknown>".toList := by
  rw [spell, display]
  decide

/-- The wildcard without a bound is spelled by a question mark. -/
lemma spell_wild : t.spell .wild = ['?'] := by
  rw [spell, display]
  decide

/-- An array is spelled by its elements, then a pair of brackets. -/
lemma spell_array (e : Ty) : t.spell (.array e) = t.spell e ++ ['[', ']'] :=
  String.toList_append

/-- A wildcard with an upper bound is spelled by that bound behind `? extends`. -/
lemma spell_wildExtends (b : Ty) :
    t.spell (.wildExtends b) = "? extends ".toList ++ t.spell b :=
  String.toList_append

/-- A wildcard with a lower bound is spelled by that bound behind `? super`. -/
lemma spell_wildSuper (b : Ty) : t.spell (.wildSuper b) = "? super ".toList ++ t.spell b :=
  String.toList_append

/-- A type is spelled by its first member, then the others behind ampersands. -/
lemma spell_of_members {a m : Ty} {ms : List Ty} (h : a.members = m :: ms) :
    t.spell a = t.spell m ++ t.spellRest [' ', '&', ' '] ms := by
  cases a with
  | inter ms' =>
    obtain rfl : ms' = m :: ms := h
    rw [spell, display, String.toList_append, toList_displayRest]
    rfl
  | _ =>
    obtain ⟨rfl, rfl⟩ := List.cons_eq_cons.1 h
    exact (List.append_nil _).symm

/-- A type is spelled by what it is built on, then the brackets of its dimensions. -/
lemma spell_core (a : Ty) : t.spell a = t.spell a.core ++ brackets a.rank := by
  induction a using Ty.rec_members with
  | array e ih =>
    rw [spell_array, ih, Ty.core, Ty.rank, brackets, brackets, List.replicate_succ',
      List.flatten_concat, List.append_assoc]
  | _ => exact (List.append_nil _).symm

/-- Brackets can be told from a text after them that starts with another character. -/
lemma brackets_append_inj {n m : Nat} {u v : List Char} {stops : List Char} (free : '[' ∉ stops)
    (hu : StartsIn stops u) (hv : StartsIn stops v) (h : brackets n ++ u = brackets m ++ v) :
    n = m ∧ u = v := by
  induction n generalizing m with
  | zero =>
    cases m with
    | zero => exact ⟨rfl, h⟩
    | succ m =>
      obtain rfl : u = '[' :: ']' :: (brackets m ++ v) := h
      exact absurd (startsIn_cons.1 hu) free
  | succ n ih =>
    cases m with
    | zero =>
      obtain rfl : '[' :: ']' :: (brackets n ++ u) = v := h
      exact absurd (startsIn_cons.1 hv) free
    | succ m =>
      obtain ⟨-, tails⟩ := List.cons_eq_cons.1 h
      obtain ⟨rfl, rest⟩ := ih (List.cons_eq_cons.1 tails).2
      exact ⟨rfl, rest⟩

variable {t} {ns : List Referent} {a b : Ty} {u v : List Char}

/-! ### The word at the top of a type -/

/-- A class or a type parameter is displayed by its name. -/
lemma display_bare_of_referent {n : Referent} (h : a.referent? = some n) :
    t.display a.bare = t.nameOf n := by
  cases a <;> cases h <;> rfl

/-- A worded type that refers to nothing is displayed by a keyword. -/
lemma display_bare_mem_keywords (h : a.Worded) (anonymous : a.referent? = none) :
    t.display a.bare ∈ keywords := by
  cases a with
  | prim p => exact p.keyword_mem_keywords
  | void => exact List.mem_cons_self
  | null => exact List.mem_cons_of_mem _ List.mem_cons_self
  | unknown => exact absurd rfl h.known
  | cls | var => cases anonymous
  | _ => cases h.atom

/-- A worded type that refers to nothing is found by its keyword. -/
lemma ofKeyword?_display_bare (h : a.Worded) (anonymous : a.referent? = none) :
    Ty.ofKeyword? (t.display a.bare) = some a.bare := by
  cases a with
  | prim p => exact Ty.ofKeyword?_keyword p
  | void | null => rfl
  | unknown => exact absurd rfl h.known
  | cls | var => cases anonymous
  | _ => cases h.atom

namespace NamesApart

/-- The bare form of a worded type is displayed by a word. -/
lemma isWord (names : t.NamesApart ns) (named : ∀ n ∈ a.referent?, n ∈ ns) (h : a.Worded) :
    IsWord (t.display a.bare) := by
  cases r : a.referent? with
  | none => exact isWord_of_mem_keywords _ (display_bare_mem_keywords h r)
  | some n =>
    rw [display_bare_of_referent r]
    exact (names.word n (named n r)).1

/-- The word that displays a type tells which class, type parameter or keyword it is. -/
lemma bare_inj (names : t.NamesApart ns) (inA : ∀ n ∈ a.referent?, n ∈ ns)
    (inB : ∀ n ∈ b.referent?, n ∈ ns) (ha : a.Worded) (hb : b.Worded)
    (h : t.display a.bare = t.display b.bare) : a.bare = b.bare := by
  cases ra : a.referent? with
  | none =>
    cases rb : b.referent? with
    | none =>
      have same := ofKeyword?_display_bare (t := t) ha ra
      rw [h, ofKeyword?_display_bare hb rb] at same
      exact (Option.some.inj same).symm
    | some m =>
      rw [display_bare_of_referent rb] at h
      exact absurd (h ▸ display_bare_mem_keywords ha ra) (names.word m (inB m rb)).2
  | some n =>
    rw [display_bare_of_referent ra] at h
    cases rb : b.referent? with
    | none => exact absurd (h ▸ display_bare_mem_keywords hb rb) (names.word n (inA n ra)).2
    | some m =>
      rw [display_bare_of_referent rb] at h
      obtain rfl := names.distinct n (inA n ra) m (inB m rb) h
      exact Ty.bare_eq_of_referent ra rb

/-- No separator stands at the beginning of a type that is displayed by a word. -/
lemma spell_ne_cons (names : t.NamesApart ns) (named : ∀ n ∈ a.referent?, n ∈ ns) (h : a.Worded)
    {c : Char} (sep : c ∈ separators) (w : List Char) : t.spell a ++ u ≠ c :: w := by
  obtain ⟨nonempty, letters⟩ := names.isWord named h
  obtain ⟨d, ds, spelled⟩ := List.exists_cons_of_ne_nil nonempty
  rw [spell_bare, spell, spelled]
  intro alike
  obtain rfl := (List.cons_eq_cons.1 alike).1
  exact letters d (spelled ▸ List.mem_cons_self) sep

end NamesApart

/-! ### The places where types stand -/

/-- A place where a type is displayed. -/
inductive Place where
  /-- In front of the brackets of an array, if any. -/
  | core
  /-- As a member of an intersection. -/
  | member
  /-- As a type argument or the bound of one. -/
  | argument

namespace Place

/-- The type may stand at the place. -/
def Holds : Place → Ty → Prop
  | .core, a => a.isAtom = true
  | .member, a => a.Simple
  | .argument, _ => True

/-- The characters that end a type at the place. -/
def stops : Place → List Char
  | .core => [' ', ',', '>', '[']
  | .member => [' ', ',', '>']
  | .argument => [',', '>']

end Place

/-- At the place, up to a character that ends it, no other presentable type is displayed like this
one. -/
def Reads (t : ClassTable) (ns : List Referent) (p : Place) (a : Ty) : Prop :=
  ∀ b, b.Presentable ns → p.Holds b → ∀ u v, StartsIn p.stops u → StartsIn p.stops v →
    t.spell a ++ u = t.spell b ++ v → a = b ∧ u = v

section Lists

variable {p : Place} {ends gap : List Char} {s : Char} {as bs : List Ty}

/-- Types behind separators can be read one by one, when each of them stops at the separator and
what follows the last does not start like one. -/
lemma spellRest_inj (reads : ∀ a ∈ as, t.Reads ns p a)
    (held : ∀ b ∈ bs, b.Presentable ns ∧ p.Holds b) (stop : s ∈ p.stops) (sub : ends ⊆ p.stops)
    (fresh : s ∉ ends) (hu : StartsIn ends u) (hv : StartsIn ends v)
    (h : t.spellRest (s :: gap) as ++ u = t.spellRest (s :: gap) bs ++ v) : as = bs ∧ u = v := by
  have stopped {xs : List Ty} {w : List Char} (hw : StartsIn ends w) :
      StartsIn p.stops (t.spellRest (s :: gap) xs ++ w) := by
    cases xs with
    | nil => exact hw.mono sub
    | cons x xs => exact startsIn_cons.2 stop
  -- A separator cannot end a list, so both lists go on together or end together.
  induction as generalizing bs with
  | nil =>
    cases bs with
    | nil => exact ⟨rfl, h⟩
    | cons b bs =>
      obtain rfl : u = _ := h
      exact absurd (startsIn_cons.1 hu) fresh
  | cons a as ih =>
    cases bs with
    | nil =>
      obtain rfl : _ = v := h
      exact absurd (startsIn_cons.1 hv) fresh
    | cons b bs =>
      simp only [spellRest, List.append_assoc, List.append_cancel_left_eq] at h
      obtain ⟨first, readsRest⟩ := List.forall_mem_cons.1 reads
      obtain ⟨⟨hb, kb⟩, heldRest⟩ := List.forall_mem_cons.1 held
      obtain ⟨rfl, rest⟩ := first b hb kb _ _ (stopped hu) (stopped hv) h
      obtain ⟨rfl, ended⟩ := ih readsRest heldRest rest
      exact ⟨rfl, ended⟩

/-- The same with a type before the first separator. -/
lemma spell_append_rest_inj (reads : ∀ x ∈ a :: as, t.Reads ns p x)
    (held : ∀ x ∈ b :: bs, x.Presentable ns ∧ p.Holds x) (stop : s ∈ p.stops) (sub : ends ⊆ p.stops)
    (fresh : s ∉ ends) (hu : StartsIn ends u) (hv : StartsIn ends v)
    (h : t.spell a ++ (t.spellRest (s :: gap) as ++ u) =
      t.spell b ++ (t.spellRest (s :: gap) bs ++ v)) : a :: as = b :: bs ∧ u = v := by
  have behind : t.spellRest (s :: gap) (a :: as) ++ u = t.spellRest (s :: gap) (b :: bs) ++ v := by
    simp only [spellRest, List.append_assoc, h]
  exact spellRest_inj reads held stop sub fresh hu hv behind

end Lists

/-- Where the arguments of a type may end, a separator follows its name. -/
lemma startsIn_spellArgs (as : List Ty) (hu : StartsIn Place.core.stops u) :
    StartsIn separators (t.spellArgs as ++ u) := by
  cases as with
  | nil => exact hu.mono (by decide)
  | cons a as => exact startsIn_cons.2 (by decide)

/-- Lists of arguments displayed alike are the same if each argument of one can be read. -/
lemma spellArgs_inj {as bs : List Ty} (reads : ∀ a ∈ as, t.Reads ns .argument a)
    (held : ∀ b ∈ bs, b.Presentable ns) (hu : StartsIn Place.core.stops u)
    (hv : StartsIn Place.core.stops v)
    (h : t.spellArgs as ++ u = t.spellArgs bs ++ v) : as = bs ∧ u = v := by
  cases as with
  | nil =>
    cases bs with
    | nil => exact ⟨rfl, h⟩
    | cons b bs =>
      obtain rfl : u = _ := h
      exact absurd (startsIn_cons.1 hu) (by decide)
  | cons a as =>
    cases bs with
    | nil =>
      obtain rfl : _ = v := h
      exact absurd (startsIn_cons.1 hv) (by decide)
    | cons b bs =>
      simp only [spellArgs, List.cons_append, List.append_assoc, List.cons.injEq, true_and] at h
      obtain ⟨same, rest⟩ := spell_append_rest_inj reads (fun x hx => ⟨held x hx, trivial⟩)
        (by decide) (by decide : ['>'] ⊆ Place.argument.stops) (by decide)
        (startsIn_cons.2 (by decide)) (startsIn_cons.2 (by decide)) h
      exact ⟨same, (List.cons_eq_cons.1 rest).2⟩

/-- A class, a type parameter or a keyword can be read if the type arguments can. -/
lemma NamesApart.reads_atom (names : t.NamesApart ns) (ha : a.Presentable ns)
    (atom : a.isAtom = true) (reads : ∀ x ∈ a.args, t.Reads ns .argument x) :
    t.Reads ns .core a := by
  intro b hb atomB u v hu hv h
  have angle : '<' ∈ separators := by decide
  by_cases ka : a = .unknown <;> by_cases kb : b = .unknown
  · subst ka kb
    exact ⟨rfl, List.append_cancel_left h⟩
  · rw [ka, spell_unknown] at h
    exact absurd h.symm (names.spell_ne_cons hb.here.named ⟨atomB, kb⟩ angle _)
  · rw [kb, spell_unknown] at h
    exact absurd h (names.spell_ne_cons ha.here.named ⟨atom, ka⟩ angle _)
  · have wa : a.Worded := ⟨atom, ka⟩
    have wb : b.Worded := ⟨atomB, kb⟩
    rw [t.spell_bare a, t.spell_bare b, List.append_assoc, List.append_assoc] at h
    obtain ⟨words, rest⟩ := word_append_inj (names.isWord ha.here.named wa).2
      (names.isWord hb.here.named wb).2 (startsIn_spellArgs _ hu) (startsIn_spellArgs _ hv) h
    have heads := names.bare_inj ha.here.named hb.here.named wa wb (String.toList_injective words)
    obtain ⟨lists, ended⟩ := spellArgs_inj reads hb.args hu hv rest
    exact ⟨Ty.eq_of_bare heads lists, ended⟩

/-- A type that is no intersection can be read if what it is built on can. -/
lemma Reads.member (reads : t.Reads ns .core a.core) : t.Reads ns .member a := by
  intro b hb simple u v hu hv h
  have stopped {w : List Char} (n : Nat) (hw : StartsIn Place.member.stops w) :
      StartsIn Place.core.stops (brackets n ++ w) := by
    cases n with
    | zero => exact hw.mono (by decide)
    | succ n => exact startsIn_cons.2 (by decide)
  rw [spell_core, t.spell_core b, List.append_assoc, List.append_assoc] at h
  obtain ⟨cores, rest⟩ :=
    reads b.core (hb.core simple).1 (hb.core simple).2 _ _ (stopped _ hu) (stopped _ hv) h
  obtain ⟨ranks, ended⟩ := brackets_append_inj (by decide) hu hv rest
  exact ⟨Ty.eq_of_core cores ranks, ended⟩

/-- A wildcard is spelled with a question mark at its front. -/
lemma spell_wildcard (h : a.isWildcard = true) : ∃ w, t.spell a = '?' :: w := by
  cases a with
  | wild => exact ⟨[], t.spell_wild⟩
  | wildExtends b => exact ⟨_, t.spell_wildExtends b⟩
  | wildSuper b => exact ⟨_, t.spell_wildSuper b⟩
  | _ => cases h

/-- Only wildcards are displayed with a question mark in front. -/
lemma NamesApart.spell_ne (names : t.NamesApart ns) (ha : a.Presentable ns)
    (plain : a.isWildcard = false) (w : List Char) : t.spell a ++ u ≠ '?' :: w := by
  obtain ⟨m, ms, members⟩ := List.exists_cons_of_ne_nil ha.members_ne_nil
  obtain ⟨hm, simple⟩ := ha.of_mem_members plain m (members ▸ List.mem_cons_self)
  obtain ⟨hc, atom⟩ := hm.core simple
  rw [t.spell_of_members members, spell_core, List.append_assoc, List.append_assoc]
  by_cases known : m.core = .unknown
  · rw [known, spell_unknown]
    exact fun h => absurd (List.cons_eq_cons.1 h).1 (by decide)
  · exact names.spell_ne_cons hc.here.named ⟨atom, known⟩ (by decide) w

/-- A type other than a wildcard can be read if its members can. -/
lemma NamesApart.reads_members (names : t.NamesApart ns) (ha : a.Presentable ns)
    (plain : a.isWildcard = false) (reads : ∀ m ∈ a.members, t.Reads ns .member m) :
    t.Reads ns .argument a := by
  intro b hb _ u v hu hv h
  cases wb : b.isWildcard with
  | true =>
    obtain ⟨w, spelled⟩ := spell_wildcard (t := t) wb
    rw [spelled] at h
    exact absurd h (names.spell_ne ha plain _)
  | false =>
    obtain ⟨m, ms, ma⟩ := List.exists_cons_of_ne_nil ha.members_ne_nil
    obtain ⟨m', ms', mb⟩ := List.exists_cons_of_ne_nil hb.members_ne_nil
    rw [t.spell_of_members ma, t.spell_of_members mb, List.append_assoc, List.append_assoc] at h
    obtain ⟨same, ended⟩ := spell_append_rest_inj (ma ▸ reads) (mb ▸ hb.of_mem_members wb)
      (by decide) (by decide : Place.argument.stops ⊆ Place.member.stops) (by decide) hu hv h
    exact ⟨ha.eq_of_members hb (by rw [ma, mb, same]), ended⟩

/-- The display of a wildcard tells which of the three forms it has. -/
lemma wildcard_cases (wa : a.isWildcard = true) (wb : b.isWildcard = true)
    (hu : StartsIn Place.argument.stops u) (hv : StartsIn Place.argument.stops v)
    (h : t.spell a ++ u = t.spell b ++ v) :
    (a = .wild ∧ b = .wild ∧ u = v) ∨
      (∃ c d, a = .wildExtends c ∧ b = .wildExtends d ∧ t.spell c ++ u = t.spell d ++ v) ∨
      ∃ c d, a = .wildSuper c ∧ b = .wildSuper d ∧ t.spell c ++ u = t.spell d ++ v := by
  have ends {w : List Char} (hw : StartsIn Place.argument.stops w) (x : List Char) :
      w ≠ ' ' :: x := by
    rintro rfl
    exact absurd (startsIn_cons.1 hw) (by decide)
  -- The blank after it tells `?` from the bounded wildcards, and the letter after that one of them
  -- from the other.
  cases a with
  | wild =>
    rw [spell_wild] at h
    cases b with
    | wild =>
      rw [spell_wild] at h
      exact .inl ⟨rfl, rfl, List.append_cancel_left h⟩
    | wildExtends d =>
      rw [spell_wildExtends] at h
      exact absurd (List.cons_eq_cons.1 h).2 (ends hu _)
    | wildSuper d =>
      rw [spell_wildSuper] at h
      exact absurd (List.cons_eq_cons.1 h).2 (ends hu _)
    | _ => cases wb
  | wildExtends c =>
    rw [spell_wildExtends] at h
    cases b with
    | wild =>
      rw [spell_wild] at h
      exact absurd (List.cons_eq_cons.1 h).2.symm (ends hv _)
    | wildExtends d =>
      rw [spell_wildExtends, List.append_assoc, List.append_assoc] at h
      exact .inr (.inl ⟨c, d, rfl, rfl, List.append_cancel_left h⟩)
    | wildSuper d =>
      rw [spell_wildSuper] at h
      have third := (List.cons_eq_cons.1 (List.cons_eq_cons.1 (List.cons_eq_cons.1 h).2).2).1
      exact absurd third (by decide)
    | _ => cases wb
  | wildSuper c =>
    rw [spell_wildSuper] at h
    cases b with
    | wild =>
      rw [spell_wild] at h
      exact absurd (List.cons_eq_cons.1 h).2.symm (ends hv _)
    | wildExtends d =>
      rw [spell_wildExtends] at h
      have third := (List.cons_eq_cons.1 (List.cons_eq_cons.1 (List.cons_eq_cons.1 h).2).2).1
      exact absurd third (by decide)
    | wildSuper d =>
      rw [spell_wildSuper, List.append_assoc, List.append_assoc] at h
      exact .inr (.inr ⟨c, d, rfl, rfl, List.append_cancel_left h⟩)
    | _ => cases wb
  | _ => cases wa

/-- A wildcard can be read if its bound can. -/
lemma NamesApart.reads_wildcard (names : t.NamesApart ns) (wa : a.isWildcard = true)
    (upper : ∀ c, a = .wildExtends c → t.Reads ns .argument c)
    (lower : ∀ c, a = .wildSuper c → t.Reads ns .argument c) : t.Reads ns .argument a := by
  intro b hb _ u v hu hv h
  cases wb : b.isWildcard with
  | false =>
    obtain ⟨w, spelled⟩ := spell_wildcard (t := t) wa
    rw [spelled] at h
    exact absurd h.symm (names.spell_ne hb wb _)
  | true =>
    obtain ⟨rfl, rfl, ended⟩ | ⟨c, d, rfl, rfl, rest⟩ | ⟨c, d, rfl, rfl, rest⟩ :=
      wildcard_cases wa wb hu hv h
    · exact ⟨rfl, ended⟩
    · obtain ⟨rfl, ended⟩ := upper c rfl d hb.extendsBound trivial u v hu hv rest
      exact ⟨rfl, ended⟩
    · obtain ⟨rfl, ended⟩ := lower c rfl d hb.superBound trivial u v hu hv rest
      exact ⟨rfl, ended⟩

/-- The type can be read as a type argument and, unless it is a wildcard or an intersection, as what
arrays are built on. -/
structure Readable (t : ClassTable) (ns : List Referent) (a : Ty) : Prop where
  core : a.Simple → t.Reads ns .core a.core
  argument : t.Reads ns .argument a

/-- A simple type can be read at every place if it can be read as far as its dimensions. -/
lemma NamesApart.readable_of_core (names : t.NamesApart ns) (ha : a.Presentable ns)
    (simple : a.Simple) (core : t.Reads ns .core a.core) : t.Readable ns a where
  core _ := core
  argument := by
    refine names.reads_members ha simple.notWildcard fun m hm => ?_
    rw [Ty.members_of_not_intersection simple.notIntersection, List.mem_singleton] at hm
    exact hm ▸ core.member

/-- Whether a type can be read is settled from the inside out: by its arguments, what it is built
on, its bound or its members. -/
lemma NamesApart.readable (names : t.NamesApart ns) (ha : a.Presentable ns) : t.Readable ns a := by
  induction a using Ty.rec_members with
  | array e ih =>
    obtain ⟨he, simple⟩ := ha.elem
    exact names.readable_of_core ha ⟨rfl, rfl⟩ ((ih he).core simple)
  | cls c args ih =>
    exact names.readable_of_core ha ⟨rfl, rfl⟩
      (names.reads_atom ha rfl fun x hx => (ih x hx (ha.args x hx)).argument)
  | wild => exact ⟨(nomatch ·.notWildcard), names.reads_wildcard rfl nofun nofun⟩
  | wildExtends b ih =>
    refine ⟨(nomatch ·.notWildcard), names.reads_wildcard rfl (fun c eq => ?_) nofun⟩
    obtain rfl := Ty.wildExtends.inj eq
    exact (ih ha.extendsBound).argument
  | wildSuper b ih =>
    refine ⟨(nomatch ·.notWildcard), names.reads_wildcard rfl nofun fun c eq => ?_⟩
    obtain rfl := Ty.wildSuper.inj eq
    exact (ih ha.superBound).argument
  | inter ms ih =>
    refine ⟨(nomatch ·.notIntersection), names.reads_members ha rfl fun m hm => ?_⟩
    obtain ⟨hm', simple⟩ := ha.of_mem_members rfl m hm
    exact Reads.member ((ih m hm hm').core simple)
  | _ => exact names.readable_of_core ha ⟨rfl, rfl⟩ (names.reads_atom ha rfl nofun)

/-- Presentable types that are displayed alike are the same. -/
theorem display_injective (names : t.NamesApart ns) (ha : a.Presentable ns)
    (hb : b.Presentable ns) (h : t.display a = t.display b) : a = b := by
  have alike : t.spell a ++ [] = t.spell b ++ [] := by rw [spell, spell, h]
  exact ((names.readable ha).argument b hb trivial [] [] (startsIn_nil _) (startsIn_nil _) alike).1

section

open ClassTable (platform)

private def runnable : Ty := .cls ⟨14⟩ []
private def serializable : Ty := .cls ⟨4⟩ []

/-- The class `Function` and what its arguments below refer to. -/
private def sighted : List Referent := [.cls ⟨23⟩, .cls ⟨14⟩, .cls ⟨4⟩, .param ⟨1⟩]

/-- A function from a supertype of an intersection to arrays of arrays of a type variable. -/
private def consumerOf (bound : Ty) : Ty :=
  .cls ⟨23⟩ [.wildSuper bound, .array (.array (.var ⟨1⟩))]

/-- Dropping the repeated member of an intersection inside a wildcard argument changes neither the
display nor the type. -/
theorem display_injective_functionType :
    platform.NamesApart sighted ∧
      (consumerOf (.inter [runnable, serializable])).Presentable sighted ∧
      platform.display (consumerOf (.inter [runnable, serializable])) =
        platform.display (consumerOf (.intersection [runnable, serializable, runnable])) ∧
      consumerOf (.inter [runnable, serializable]) =
        consumerOf (.intersection [runnable, serializable, runnable]) := by
  have names : platform.NamesApart sighted := by decide +kernel
  have ha : (consumerOf (.inter [runnable, serializable])).Presentable sighted := by decide
  have hb : (consumerOf (.intersection [runnable, serializable, runnable])).Presentable
      sighted := by
    decide
  have alike : platform.display (consumerOf (.inter [runnable, serializable])) =
      platform.display (consumerOf (.intersection [runnable, serializable, runnable])) := by
    decide +kernel
  exact ⟨names, ha, alike, display_injective names ha hb alike⟩

/-- Brackets would have to tell an array of intersections from an intersection with an array. -/
example : platform.display (.array (.inter [runnable, serializable])) =
    platform.display (.inter [runnable, .array serializable]) := by
  decide +kernel

end

end ClassTable

end LambdaTyping
