import Mathlib.Data.List.Nodup
import TypeEngine.Proofs.Building

/-!
# The methods of a trait

A trait tells its methods apart by a key, the name and the number of parameters with a slash between
them, and it looks them up by name and number. The name may itself hold slashes and digits. The two
nevertheless agree, since what follows the last slash is the number (`MethodOf.key_eq_iff`).

Declaring a method succeeds if its name has no blanks, its arguments can be built and no method
before it has its name and arity; otherwise it `Offends` in one of these three ways. A trait can be
declared if all its methods can (`WellDeclared`), and otherwise the first that offends gives the
error (`trait_indexes_methods`).
-/

namespace TypeEngine

/-! ## Keys -/

/-- Digits are no slashes. -/
theorem slash_notMem_toDigits (n : Nat) : '/' ∉ Nat.toDigits 10 n := by
  intro hmem
  have hdigit := Nat.isDigit_of_mem_toDigits (by decide) (by decide) hmem
  exact absurd hdigit (by decide)

/-- What follows the last slash. -/
theorem takeWhile_reverse_append_slash (l : List Char) {r : List Char} (hr : '/' ∉ r) :
    (l ++ '/' :: r).reverse.takeWhile (· != '/') = r.reverse := by
  have hall : ∀ c ∈ r.reverse, (c != '/') = true := by
    intro c hc
    rw [bne_iff_ne]
    rintro rfl
    exact hr (List.mem_reverse.1 hc)
  rw [List.reverse_append, List.reverse_cons, List.append_assoc, List.takeWhile_append_of_pos hall]
  simp

namespace MethodOf

variable {α : Type}

/-- What a trait looks a method up by. -/
def signature (m : MethodOf α) : String × Nat :=
  (m.name, m.arity)

theorem toList_key (m : MethodOf α) :
    m.key.toList = m.name.toList ++ '/' :: Nat.toDigits 10 m.arity := by
  simp [key]

/-- **Two methods have one key exactly if they have one name and one arity.** -/
theorem key_eq_iff {m m' : MethodOf α} : m.key = m'.key ↔ m.signature = m'.signature := by
  constructor
  · intro h
    have hlist : m.name.toList ++ '/' :: Nat.toDigits 10 m.arity
        = m'.name.toList ++ '/' :: Nat.toDigits 10 m'.arity := by
      rw [← toList_key, ← toList_key, h]
    have hdigits : Nat.toDigits 10 m.arity = Nat.toDigits 10 m'.arity := by
      have hlast := congrArg (fun l : List Char => l.reverse.takeWhile (· != '/')) hlist
      simp only [takeWhile_reverse_append_slash _ (slash_notMem_toDigits _)] at hlast
      exact List.reverse_inj.1 hlast
    have harity : m.arity = m'.arity := by
      rw [← Nat.ofDigitChars_ten_toDigits (n := m.arity), hdigits, Nat.ofDigitChars_ten_toDigits]
    rw [hdigits] at hlist
    exact Prod.ext (String.toList_inj.1 (List.append_cancel_right hlist)) harity
  · intro h
    have hname : m.name = m'.name := congrArg Prod.fst h
    have harity : m.arity = m'.arity := congrArg Prod.snd h
    rw [key, key, hname, harity]

end MethodOf

/-- A method can be looked up if no other has its name and arity. -/
theorem TraitOf.method?_eq_some_iff {α : Type} {t : TraitOf α}
    (hdistinct : (t.methods.map (·.signature)).Nodup) {name : String} {arity : Nat}
    {m : MethodOf α} :
    t.method? name arity = some m ↔ m ∈ t.methods ∧ m.name = name ∧ m.arity = arity := by
  constructor
  · intro h
    have hmatch := List.find?_some h
    rw [Bool.and_eq_true, beq_iff_eq, beq_iff_eq] at hmatch
    exact ⟨List.mem_of_find?_eq_some h, hmatch⟩
  · rintro ⟨hm, rfl, rfl⟩
    cases hfound : t.method? m.name m.arity with
    | none =>
      have hnone := List.find?_eq_none.1 hfound m hm
      simp at hnone
    | some found =>
      have hmatch := List.find?_some hfound
      rw [Bool.and_eq_true, beq_iff_eq, beq_iff_eq] at hmatch
      have hsame := List.inj_on_of_nodup_map hdistinct (List.mem_of_find?_eq_some hfound) hm
        (Prod.ext hmatch.1 hmatch.2)
      rw [hsame]

/-! ## One method -/

/-- The method that a draft declares, once its arguments are built. -/
def Drafting.MethodDraft.method (m : Drafting.MethodDraft) (item : Item) (arguments : List Ty) :
    Method :=
  ⟨item.name, m.name, arguments, m.hasDefault, .ofList [.traitMethod]⟩

/-- The error that a trait has a method already. -/
def TypeError.repeatedMethod (item : Item) (method : Method) : TypeError :=
  ((TypeError.ofCode .duplicateMethod).attach "name" method.key).attach "trait" item.name

/-- The name of a method holds no white space. -/
def Drafting.MethodDraft.Unbroken (m : Drafting.MethodDraft) : Prop :=
  m.name.toList.any Text.isBlank = false

namespace Drafting

variable {item : Item} {before : List Method} {d d' d₁ : Draft} {m : MethodDraft}
  {ms : List MethodDraft} {e : TypeError}

/-- `Accepts item before d m method d'`: `m` declares `method` after the methods in `before`. Its
arguments are built on the draft `d`, and leave `d'`. -/
structure Accepts (item : Item) (before : List Method) (d : Draft) (m : MethodDraft)
    (method : Method) (d' : Draft) : Prop where
  unbroken : m.Unbroken
  builds : ∃ arguments, (m.arguments.run item).run d = .ok (arguments, d') ∧
    method = m.method item arguments
  new : method.signature ∉ before.map (·.signature)

/-- `Offends item before d m e`: the draft `m` cannot be declared after the methods in `before`, and
`e` says why. -/
inductive Offends (item : Item) (before : List Method) (d : Draft) (m : MethodDraft) :
    TypeError → Prop
  | blank : ¬ m.Unbroken → Offends item before d m (.named .functionNameSpaces m.name)
  | arguments {e : TypeError} : m.Unbroken → (m.arguments.run item).run d = .error e →
      Offends item before d m e
  | repeated {arguments : List Ty} {d' : Draft} : m.Unbroken →
      (m.arguments.run item).run d = .ok (arguments, d') →
      (m.method item arguments).signature ∈ before.map (·.signature) →
      Offends item before d m (.repeatedMethod item (m.method item arguments))

/-- The steps that declare the first of some methods. -/
theorem run_methods_cons :
    ((methods before (m :: ms)).run item).run d
      = Naming.checkFunctionName m.name >>= fun _ =>
          (m.arguments.run item).run d >>= fun p =>
            if before.any (·.key == (m.method item p.1).key) then
              .error (.repeatedMethod item (m.method item p.1))
            else
              ((methods (before ++ [m.method item p.1]) ms).run item).run p.2 := by
  -- What follows once the arguments are built.
  have hrest (p : List Ty × Draft) :
      (((if before.any (·.key == (m.method item p.1).key) then
          throw (.repeatedMethod item (m.method item p.1))
        else
          methods (before ++ [m.method item p.1]) ms : Drafting (List Method)).run item).run p.2)
        = if before.any (·.key == (m.method item p.1).key) then
            .error (.repeatedMethod item (m.method item p.1))
          else
            ((methods (before ++ [m.method item p.1]) ms).run item).run p.2 := by
    split_ifs <;> rfl
  simp only [← hrest]
  show ((liftM (Naming.checkFunctionName m.name) : Drafting Unit).run item).run d >>= _ = _
  rw [run_checked]
  cases Naming.checkFunctionName m.name <;> rfl

theorem any_key_iff {method : Method} :
    before.any (·.key == method.key) = true ↔ method.signature ∈ before.map (·.signature) := by
  simp only [List.any_eq_true, beq_iff_eq, MethodOf.key_eq_iff, List.mem_map]

theorem checkFunctionName_eq_ok_iff : Naming.checkFunctionName m.name = .ok () ↔ m.Unbroken := by
  rw [Naming.checkFunctionName, MethodDraft.Unbroken]
  split_ifs with hblank <;> simp [hblank]

theorem checkFunctionName_eq_error_iff :
    Naming.checkFunctionName m.name = .error e ↔
      ¬ m.Unbroken ∧ e = .named .functionNameSpaces m.name := by
  rw [Naming.checkFunctionName, MethodDraft.Unbroken]
  split_ifs with hblank <;> simp [hblank, eq_comm]

theorem Accepts.run_methods_cons {method : Method} (h : Accepts item before d m method d') :
    ((methods before (m :: ms)).run item).run d
      = ((methods (before ++ [method]) ms).run item).run d' := by
  obtain ⟨hname, ⟨arguments, hrun, rfl⟩, hnew⟩ := h
  rw [Drafting.run_methods_cons, checkFunctionName_eq_ok_iff.2 hname, hrun]
  rw [← any_key_iff] at hnew
  exact if_neg hnew

theorem Offends.run_methods_cons (h : Offends item before d m e) :
    ((methods before (m :: ms)).run item).run d = .error e := by
  rw [Drafting.run_methods_cons]
  cases h with
  | blank hbroken =>
    rw [checkFunctionName_eq_error_iff.2 ⟨hbroken, rfl⟩]
    rfl
  | arguments hname hrun =>
    rw [checkFunctionName_eq_ok_iff.2 hname, hrun]
    rfl
  | repeated hname hrun hkey =>
    rw [checkFunctionName_eq_ok_iff.2 hname, hrun]
    exact if_pos (any_key_iff.2 hkey)

/-- **A method is accepted, or it offends.** -/
theorem accepts_or_offends (item : Item) (before : List Method) (d : Draft) (m : MethodDraft) :
    (∃ method d', Accepts item before d m method d') ∨ ∃ e, Offends item before d m e := by
  by_cases hname : m.Unbroken
  · cases hrun : (m.arguments.run item).run d with
    | error e => exact .inr ⟨e, .arguments hname hrun⟩
    | ok built =>
      obtain ⟨arguments, d'⟩ := built
      by_cases hold : (m.method item arguments).signature ∈ before.map (·.signature)
      · exact .inr ⟨_, .repeated hname hrun hold⟩
      · exact .inl ⟨_, d', hname, ⟨arguments, hrun, rfl⟩, hold⟩
  · exact .inr ⟨_, .blank hname⟩

/-! ## All methods -/

/-- `DeclaresMethods item d ms declared d'`: the arguments of the methods can be built one after
another, from the draft `d` on. This gives the methods `declared` and leaves the draft `d'`. -/
inductive DeclaresMethods (item : Item) : Draft → List MethodDraft → List Method → Draft → Prop
  | nil (d : Draft) : DeclaresMethods item d [] [] d
  | cons {d d₁ d' : Draft} {m : MethodDraft} {ms : List MethodDraft} {arguments : List Ty}
      {declared : List Method} : (m.arguments.run item).run d = .ok (arguments, d₁) →
      DeclaresMethods item d₁ ms declared d' →
      DeclaresMethods item d (m :: ms) (m.method item arguments :: declared) d'

/-- All methods can be declared after those in `before`: no name has a blank in it, all arguments
can be built, and no two methods have one name and arity. -/
structure WellDeclared (item : Item) (before : List Method) (d : Draft) (ms : List MethodDraft)
    (declared : List Method) (d' : Draft) : Prop where
  unbroken : ∀ m ∈ ms, m.Unbroken
  declares : DeclaresMethods item d ms declared d'
  distinct : ((before ++ declared).map (·.signature)).Nodup

namespace WellDeclared

variable {method : Method} {declared : List Method}

theorem nil (hbefore : (before.map (·.signature)).Nodup) : WellDeclared item before d [] [] d :=
  ⟨fun _ hm => (by cases hm), .nil d, by rwa [List.append_nil]⟩

theorem cons (h : Accepts item before d m method d₁)
    (hrest : WellDeclared item (before ++ [method]) d₁ ms declared d') :
    WellDeclared item before d (m :: ms) (method :: declared) d' := by
  obtain ⟨hname, ⟨arguments, hrun, rfl⟩, -⟩ := h
  refine ⟨List.forall_mem_cons.2 ⟨hname, hrest.unbroken⟩, .cons hrun hrest.declares, ?_⟩
  simpa using hrest.distinct

theorem of_cons (h : WellDeclared item before d (m :: ms) declared d') :
    ∃ method rest d₁, declared = method :: rest ∧ Accepts item before d m method d₁ ∧
      WellDeclared item (before ++ [method]) d₁ ms rest d' := by
  obtain ⟨hnames, hdeclares, hdistinct⟩ := h
  obtain ⟨hname, hnames⟩ := List.forall_mem_cons.1 hnames
  cases hdeclares with
  | @cons _ d₁ _ _ _ arguments rest hrun hrest =>
    refine ⟨_, rest, d₁, rfl, ⟨hname, ⟨arguments, hrun, rfl⟩, ?_⟩, hnames, hrest,
      by simpa using hdistinct⟩
    rw [List.map_append, List.map_cons] at hdistinct
    exact fun hold => (List.disjoint_of_nodup_append hdistinct) hold List.mem_cons_self

/-- The steps that declare further methods go on from there. -/
theorem run_methods_append (h : WellDeclared item before d ms declared d')
    (rest : List MethodDraft) :
    ((methods before (ms ++ rest)).run item).run d
      = ((methods (before ++ declared) rest).run item).run d' := by
  induction ms generalizing before d declared with
  | nil =>
    cases h.declares
    rw [List.append_nil, List.nil_append]
  | cons m ms ih =>
    obtain ⟨method, later, d₁, rfl, haccepts, hrest⟩ := h.of_cons
    rw [List.cons_append, haccepts.run_methods_cons, ih hrest, List.append_assoc,
      List.singleton_append]

theorem run_methods (h : WellDeclared item before d ms declared d') :
    ((methods before ms).run item).run d = .ok (before ++ declared, d') := by
  have hrun := h.run_methods_append []
  rw [List.append_nil] at hrun
  exact hrun

end WellDeclared

/-- `FirstOffence item before d ms e`: the methods cannot be declared after those in `before`, and
`e` is the error of the first that offends. -/
def FirstOffence (item : Item) (before : List Method) (d : Draft) (ms : List MethodDraft)
    (e : TypeError) : Prop :=
  ∃ first m rest declared d₁, ms = first ++ m :: rest ∧
    WellDeclared item before d first declared d₁ ∧ Offends item (before ++ declared) d₁ m e

theorem FirstOffence.run_methods (h : FirstOffence item before d ms e) :
    ((methods before ms).run item).run d = .error e := by
  obtain ⟨first, m, rest, declared, d₁, rfl, hfirst, hoffends⟩ := h
  rw [hfirst.run_methods_append, hoffends.run_methods_cons]

/-- **All methods can be declared, or one of them is the first to offend.** -/
theorem wellDeclared_or_firstOffence (item : Item) (ms : List MethodDraft) {before : List Method}
    (hbefore : (before.map (·.signature)).Nodup) (d : Draft) :
    (∃ declared d', WellDeclared item before d ms declared d') ∨
      ∃ e, FirstOffence item before d ms e := by
  induction ms generalizing before d with
  | nil => exact .inl ⟨[], d, .nil hbefore⟩
  | cons m ms ih =>
    rcases accepts_or_offends item before d m with ⟨method, d₁, haccepts⟩ | ⟨e, hoffends⟩
    · have hbefore' : ((before ++ [method]).map (·.signature)).Nodup := by
        rw [List.map_append, List.map_singleton, ← List.concat_eq_append]
        exact hbefore.concat haccepts.new
      rcases ih hbefore' d₁ with ⟨declared, d', hrest⟩ |
        ⟨e, first, n, rest, declared, d₂, rfl, hfirst, hoffends⟩
      · exact .inl ⟨_, d', .cons haccepts hrest⟩
      · refine .inr ⟨e, m :: first, n, rest, method :: declared, d₂, rfl, .cons haccepts hfirst, ?_⟩
        rwa [List.append_assoc] at hoffends
    · exact .inr ⟨e, [], m, ms, [], d, rfl, .nil hbefore, by rwa [List.append_nil]⟩

theorem run_methods_eq_ok_iff (hbefore : (before.map (·.signature)).Nodup)
    {r : List Method × Draft} :
    ((methods before ms).run item).run d = .ok r ↔
      ∃ declared d', WellDeclared item before d ms declared d' ∧ r = (before ++ declared, d') := by
  constructor
  · intro h
    rcases wellDeclared_or_firstOffence item ms hbefore d with ⟨declared, d', hwell⟩ | ⟨e, hoffence⟩
    · rw [hwell.run_methods] at h
      cases h
      exact ⟨declared, d', hwell, rfl⟩
    · rw [hoffence.run_methods] at h
      cases h
  · rintro ⟨declared, d', hwell, rfl⟩
    exact hwell.run_methods

theorem run_methods_eq_error_iff (hbefore : (before.map (·.signature)).Nodup) :
    ((methods before ms).run item).run d = .error e ↔ FirstOffence item before d ms e := by
  refine ⟨fun h => ?_, fun hoffence => hoffence.run_methods⟩
  rcases wellDeclared_or_firstOffence item ms hbefore d with ⟨_, _, hwell⟩ | ⟨e', hoffence⟩
  · rw [hwell.run_methods] at h
    cases h
  · rw [hoffence.run_methods] at h
    cases h
    exact hoffence

end Drafting

/-! ## Registering a trait -/

/-- The registration of a trait. -/
def Registration.trait (name : String) (attributes : Attributes) (param : String)
    (ms : List Drafting.MethodDraft) : Registration :=
  ⟨name, attributes, [], Drafting.trait param ms⟩

/-- With names that are right, registering a trait is declaring its methods. -/
theorem Builder.register_trait (b : Builder) {name param : String} (attributes : Attributes)
    (ms : List Drafting.MethodDraft) (hname : Naming.checkTypeName name = .ok ())
    (hfree : b.lookup name = none) (hparam : Naming.checkParameterName param = .ok ()) :
    (b.register (.trait name attributes param ms)).1
      = (((Drafting.methods [] ms).run ⟨name, attributes, b.lookup⟩).run ⟨[], []⟩).map
          fun p => .trait ⟨name, param, p.1, attributes⟩ := by
  have hfactory : ((Drafting.trait param ms).run ⟨name, attributes, b.lookup⟩).run ⟨[], []⟩
      = (((Drafting.methods [] ms).run ⟨name, attributes, b.lookup⟩).run ⟨[], []⟩).map
          fun p => (.trait ⟨name, param, p.1, attributes⟩, p.2) := by
    show ((liftM (Naming.checkParameterName param) : Drafting Unit).run _).run _ >>= _ = _
    rw [Drafting.run_checked, hparam]
    show ((Drafting.methods [] ms).run ⟨name, attributes, b.lookup⟩).run ⟨[], []⟩ >>= _ = _
    cases ((Drafting.methods [] ms).run ⟨name, attributes, b.lookup⟩).run ⟨[], []⟩ <;> rfl
  have hcreate : b.create (.trait name attributes param ms)
      = ((Drafting.trait param ms).run ⟨name, attributes, b.lookup⟩).run ⟨[], []⟩ >>= fun p =>
          .ok (Builder.declare name attributes p.1,
            ⟨name, Builder.declare name attributes p.1, p.2.checks, none⟩ ::
              p.2.constructors.map fun q => ⟨q.1, q.2, [], some name⟩) := by
    have htaken : ¬ (b.lookup name).isSome = true := by simp [hfree]
    show (Naming.checkTypeName name >>= fun _ => if (b.lookup name).isSome then _ else _) = _
    rw [hname]
    exact if_neg htaken
  rw [register, hcreate, hfactory]
  cases ((Drafting.methods [] ms).run ⟨name, attributes, b.lookup⟩).run ⟨[], []⟩ <;> rfl

/-- **A trait has each of its methods once.** On any builder, declare a trait with a type name that
is free and a parameter name. This succeeds exactly if all methods can be declared: no name has a
blank in it, all arguments can be built, and no two methods have one name and arity. The trait then
has these methods in this order, and looking up a name and an arity gives the one method that has
them. The declaration fails exactly if some method offends, and with the error of the first one. -/
theorem trait_indexes_methods (b : Builder) {name param : String} (attributes : Attributes)
    (ms : List Drafting.MethodDraft) (hname : Naming.checkTypeName name = .ok ())
    (hfree : b.lookup name = none) (hparam : Naming.checkParameterName param = .ok ()) :
    (∀ ty, (b.register (.trait name attributes param ms)).1 = .ok ty ↔
      ∃ declared draft,
        Drafting.WellDeclared ⟨name, attributes, b.lookup⟩ [] ⟨[], []⟩ ms declared draft ∧
          ty = .trait ⟨name, param, declared, attributes⟩) ∧
      (∀ t, (b.register (.trait name attributes param ms)).1 = .ok (.trait t) →
        ∀ n k m, t.method? n k = some m ↔ m ∈ t.methods ∧ m.name = n ∧ m.arity = k) ∧
      ∀ e, (b.register (.trait name attributes param ms)).1 = .error e ↔
        Drafting.FirstOffence ⟨name, attributes, b.lookup⟩ [] ⟨[], []⟩ ms e := by
  have hnone : (([] : List Method).map (·.signature)).Nodup := List.nodup_nil
  have hok (ty : Ty) : (b.register (.trait name attributes param ms)).1 = .ok ty ↔
      ∃ declared draft,
        Drafting.WellDeclared ⟨name, attributes, b.lookup⟩ [] ⟨[], []⟩ ms declared draft ∧
          ty = .trait ⟨name, param, declared, attributes⟩ := by
    rw [b.register_trait attributes ms hname hfree hparam, except_map_eq_ok]
    constructor
    · rintro ⟨r, hrun, rfl⟩
      obtain ⟨declared, draft, hwell, rfl⟩ := (Drafting.run_methods_eq_ok_iff hnone).1 hrun
      exact ⟨declared, draft, hwell, rfl⟩
    · rintro ⟨declared, draft, hwell, rfl⟩
      exact ⟨_, hwell.run_methods, rfl⟩
  refine ⟨hok, fun t ht => ?_, fun e => ?_⟩
  · obtain ⟨declared, draft, hwell, hty⟩ := (hok _).1 ht
    cases hty
    intro n k m
    exact TraitOf.method?_eq_some_iff hwell.distinct
  · rw [b.register_trait attributes ms hname hfree hparam, except_map_eq_error,
      Drafting.run_methods_eq_error_iff hnone]

/-- Two methods of one name and different arities, and one whose name looks like a key. -/
def showMethods : List Drafting.MethodDraft :=
  [⟨"show", false, draftAll [.parameter "a"]⟩,
    ⟨"show", false, draftAll [.parameter "a", .parameter "a"]⟩,
    ⟨"show/1", true, draftAll [.parameter "a"]⟩]

def showDeclared : List Method :=
  [⟨"Show", "show", [.parameter "a" .written], false, .ofList [.traitMethod]⟩,
    ⟨"Show", "show", [.parameter "a" .written, .parameter "a" .written], false,
      .ofList [.traitMethod]⟩,
    ⟨"Show", "show/1", [.parameter "a" .written], true, .ofList [.traitMethod]⟩]

/-- The second method again. -/
def showAgain : Drafting.MethodDraft :=
  ⟨"show", true, draftAll [.parameter "a", .parameter "a"]⟩

def showItem : Item :=
  ⟨"Show", ∅, Builder.new.lookup⟩

theorem show_facts :
    Naming.checkTypeName "Show" = .ok () ∧ Naming.checkParameterName "a" = .ok () ∧
      (∀ m ∈ showMethods, m.name.toList.any Text.isBlank = false) ∧
      (showDeclared.map (·.signature)).Nodup ∧
      TypeError.repeatedMethod showItem
          (showAgain.method showItem [.parameter "a" .written, .parameter "a" .written])
        = ⟨.duplicateMethod, none, [("name", "show/1"), ("trait", "Show")]⟩ := by
  decide +kernel

theorem show_arguments :
    ((draftAll [.parameter "a"]).run showItem).run ⟨[], []⟩
        = .ok ([.parameter "a" .written], ⟨[], []⟩) ∧
      ((draftAll [.parameter "a", .parameter "a"]).run showItem).run ⟨[], []⟩
        = .ok ([.parameter "a" .written, .parameter "a" .written], ⟨[], []⟩) :=
  ⟨rfl, rfl⟩

theorem show_wellDeclared :
    Drafting.WellDeclared showItem [] ⟨[], []⟩ showMethods showDeclared ⟨[], []⟩ := by
  obtain ⟨-, -, hnames, hdistinct, -⟩ := show_facts
  obtain ⟨hone, htwo⟩ := show_arguments
  exact ⟨hnames, .cons hone (.cons htwo (.cons hone (.nil _))), hdistinct⟩

/-- The methods of the trait can be told apart, although one is called `show/1`. Declaring the
second one again is an error, and it is the one that counts: a method with a blank in its name comes
later. -/
theorem trait_indexes_methods_show :
    (Builder.new.register (.trait "Show" ∅ "a" showMethods)).1
        = .ok (.trait ⟨"Show", "a", showDeclared, ∅⟩) ∧
      (∀ n k m, TraitOf.method? ⟨"Show", "a", showDeclared, ∅⟩ n k = some m ↔
        m ∈ showDeclared ∧ m.name = n ∧ m.arity = k) ∧
      (Builder.new.register (.trait "Show" ∅ "a"
          (showMethods ++ [showAgain, ⟨"show all", false, draftAll []⟩]))).1
        = .error ⟨.duplicateMethod, none, [("name", "show/1"), ("trait", "Show")]⟩ := by
  obtain ⟨hname, hparam, -, -, hcode⟩ := show_facts
  obtain ⟨hok, hlookup, -⟩ := trait_indexes_methods .new ∅ showMethods hname rfl hparam
  obtain ⟨-, -, herror⟩ := trait_indexes_methods .new ∅
    (showMethods ++ [showAgain, ⟨"show all", false, draftAll []⟩]) hname rfl hparam
  have hregister := (hok _).2 ⟨showDeclared, _, show_wellDeclared, rfl⟩
  have hrepeated : Drafting.Offends showItem showDeclared ⟨[], []⟩ showAgain
      ⟨.duplicateMethod, none, [("name", "show/1"), ("trait", "Show")]⟩ := by
    rw [← hcode]
    exact .repeated rfl show_arguments.2 (by decide)
  exact ⟨hregister, hlookup _ hregister,
    (herror _).2 ⟨showMethods, _, _, showDeclared, _, rfl, show_wellDeclared, hrepeated⟩⟩

end TypeEngine
