import Mathlib.Tactic.SplitIfs
import TypeEngine.Proofs.Binds
import TypeEngine.Proofs.Layers
import TypeEngine.Registry.Declaration

/-!
# Building in layers

A registration may do anything that the steps of a draft let it do (`Drafting.Lawful`); what all
declarations have in common is that they are made of these steps (`Declaration.lawful`). Such a
registration declares a case label only if nothing has that name yet. So the entries of a builder
have names of their own, and none that is visible in the parent (`Builder.Distinct`), and the
registries that are built one over the other are layered catalogs (`BuiltInLayers.layered`).
-/

namespace TypeEngine

/-! ## What a draft may do -/

/-- A computation made of the steps of a draft. It may read, add checks, declare case labels, fail,
and recover from a failure. A single step that fails has changed nothing. So what goes on after
several steps of which the last one failed, and keeps what the others have added, recovers from the
last one alone. -/
inductive Drafting.Lawful : {α : Type} → Drafting α → Prop
  | pure {α : Type} (a : α) : Lawful (Pure.pure a : Drafting α)
  | throw {α : Type} (e : TypeError) : Lawful (MonadExcept.throw e : Drafting α)
  | read : Lawful (MonadReader.read : Drafting Item)
  | get? (name : String) : Lawful (Drafting.get? name)
  | require (check : Check) : Lawful (Drafting.require check)
  | declareCase (label : String) : Lawful (Drafting.declareCase label)
  | bind {α β : Type} {x : Drafting α} {f : α → Drafting β} : Lawful x → (∀ a, Lawful (f a)) →
      Lawful (x >>= f)
  | recover {α : Type} {x : Drafting α} {handle : TypeError → Drafting α} : Lawful x →
      (∀ e, Lawful (handle e)) → Lawful (tryCatch x handle)

/-- A registration whose factory is made of the steps of a draft. -/
def Registration.Lawful (r : Registration) : Prop :=
  Drafting.Lawful r.factory

namespace Drafting

theorem lawful_checked {α : Type} (x : Except TypeError α) :
    Lawful (liftM x : Drafting α) := by
  cases x with
  | ok a => exact .pure a
  | error e => exact .throw e

theorem lawful_isTaken (name : String) : Lawful (isTaken name) :=
  .bind .read fun _ => .bind (.get? name) fun _ => .pure _

theorem lawful_reference (name : String) : Lawful (reference name) :=
  .bind (.require _) fun _ => .pure _

theorem lawful_parametric (name : String) (params : List Ty) : Lawful (parametric name params) := by
  refine .bind .read fun item => ?_
  split
  · split
    · exact .throw _
    · exact .pure _
  · exact .bind (lawful_reference name) fun _ => .bind (.require _) fun _ => .pure _

theorem lawful_function (arguments : List Ty) : Lawful (function arguments) := by
  refine .bind .read fun item => ?_
  split
  · exact .throw _
  · exact .pure _

theorem lawful_traitNames (names : List String) : Lawful (traitNames names) := by
  induction names with
  | nil => exact .pure _
  | cons name names ih =>
    exact .bind (lawful_checked _) fun _ => .bind (.require _) fun _ => .bind ih fun _ => .pure _

theorem lawful_methods {ms : List MethodDraft} (hms : ∀ m ∈ ms, Lawful m.arguments)
    (declared : List Method) : Lawful (methods declared ms) := by
  induction ms generalizing declared with
  | nil => exact .pure _
  | cons m ms ih =>
    refine .bind .read fun item => .bind (lawful_checked _) fun _ =>
      .bind (hms m (by simp)) fun arguments => ?_
    dsimp only
    split
    · exact .throw _
    · exact ih (fun n hn => hms n (by simp [hn])) _

end Drafting

mutual

theorem Expr.lawful_draft : (e : Expr) → Drafting.Lawful e.draft
  | .concrete => .bind .read fun _ => .pure _
  | .reference name => Drafting.lawful_reference name
  | .parameter _ => .bind (Drafting.lawful_checked _) fun _ => .pure _
  | .numeric _ => .bind .read fun _ => .pure _
  | .parametric name arguments =>
    .bind (lawful_draftAll arguments) fun params => Drafting.lawful_parametric name params
  | .function arguments =>
    .bind (lawful_draftAll arguments) fun arguments => Drafting.lawful_function arguments
  | .tuple arguments =>
    .bind (lawful_draftAll arguments) fun _ => .bind .read fun _ => .pure _
  | .union cases => .bind (lawful_draftCases cases) fun _ => .bind .read fun _ => .pure _
  | .intersection traits =>
    .bind .read fun _ => .bind (Drafting.lawful_traitNames traits) fun _ => .pure _
  | .labeled _ body => .bind body.lawful_draft fun _ => .pure _
  | .raw _ => .pure _
  | .existing name => .bind (.get? name) fun
    | some _ => .pure _
    | none => .throw _
  | .ifTaken name yes no => .bind (Drafting.lawful_isTaken name) fun
    | true => yes.lawful_draft
    | false => no.lawful_draft
  | .require _ _ _ body => .bind (.require _) fun _ => body.lawful_draft

theorem lawful_draftAll : (es : List Expr) → Drafting.Lawful (draftAll es)
  | [] => .pure _
  | e :: es => .bind e.lawful_draft fun _ => .bind (lawful_draftAll es) fun _ => .pure _

theorem lawful_draftCases : (cs : List (CaseOf Expr)) → Drafting.Lawful (draftCases cs)
  | [] => .pure _
  | ⟨label, params⟩ :: cs =>
    .bind (.declareCase label) fun _ => .bind (lawful_draftAll params) fun _ =>
      .bind (lawful_draftCases cs) fun _ => .pure _

end

/-- Every declaration is made of the steps of a draft. -/
theorem Declaration.lawful (d : Declaration) : d.registration.Lawful := by
  cases d with
  | type name attributes directives body => exact body.lawful_draft
  | trait name attributes param methods =>
    refine .bind .read fun item => .bind (Drafting.lawful_checked _) fun _ =>
      .bind (Drafting.lawful_methods (fun m hm => ?_) []) fun _ => .pure _
    obtain ⟨n, -, rfl⟩ := List.mem_map.1 hm
    exact lawful_draftAll n.arguments

theorem lawful_registrations (ds : List Declaration) :
    ∀ r ∈ ds.map Declaration.registration, r.Lawful := by
  intro r hr
  obtain ⟨d, -, rfl⟩ := List.mem_map.1 hr
  exact d.lawful

/-! ## The case labels of a draft -/

/-- The case labels that a draft has declared. -/
def Draft.labels (d : Draft) : List String :=
  d.constructors.map (·.1)

/-- The case labels of a draft are new names, and stand for the registered type. -/
structure Draft.Fresh (item : Item) (d : Draft) : Prop where
  nodup : d.labels.Nodup
  name : item.name ∉ d.labels
  unseen : ∀ label ∈ d.labels, item.lookup label = none
  stands : ∀ p ∈ d.constructors, p.2 = .constructor p.1 item.name item.attributes

theorem Draft.fresh_nil (item : Item) (checks : List Check) : Draft.Fresh item ⟨checks, []⟩ :=
  ⟨List.nodup_nil, List.not_mem_nil, fun _ h => (nomatch h), fun _ h => (nomatch h)⟩

theorem lookup_isSome_iff {α : Type} {name : String} {l : List (String × α)} :
    (l.lookup name).isSome = true ↔ name ∈ l.map (·.1) := by
  induction l with
  | nil => simp
  | cons p l ih =>
    obtain ⟨key, value⟩ := p
    rw [lookup_cons]
    by_cases h : name = key <;> simp [h, ih]

namespace Drafting

section

variable {α β : Type} (item : Item) (d : Draft)

theorem run_bind (x : Drafting α) (f : α → Drafting β) :
    ((x >>= f).run item).run d
      = (x.run item).run d >>= fun p => ((f p.1).run item).run p.2 :=
  rfl

theorem run_checked (x : Except TypeError α) :
    ((liftM x : Drafting α).run item).run d = x.map (·, d) := by
  cases x <;> rfl

theorem run_isTaken (name : String) :
    ((isTaken name).run item).run d
      = .ok (decide (name = item.name ∨ (item.lookup name).isSome ∨ name ∈ d.labels), d) := by
  have h : (name == item.name || ((item.lookup name).or (d.constructors.lookup name)).isSome)
      = decide (name = item.name ∨ (item.lookup name).isSome ∨ name ∈ d.labels) := by
    rw [Bool.eq_iff_iff, decide_eq_true_iff, Draft.labels, ← lookup_isSome_iff]
    simp
  rw [← h]
  rfl

theorem run_declareCase (label : String) :
    ((declareCase label).run item).run d
      = Naming.checkTypeName label >>= fun _ =>
          if label = item.name ∨ (item.lookup label).isSome ∨ label ∈ d.labels then
            .error (.ofType .alreadyRegistered label)
          else
            .ok ((), ⟨d.checks, d.constructors
              ++ [(label, .constructor label item.name item.attributes)]⟩) := by
  -- What follows the naming rule.
  have hrest : ((isTaken label >>= fun taken =>
        if taken then throw (.ofType .alreadyRegistered label)
        else modify fun d => ⟨d.checks,
          d.constructors ++ [(label, .constructor label item.name item.attributes)]⟩ :
        Drafting Unit).run item).run d
      = if label = item.name ∨ (item.lookup label).isSome ∨ label ∈ d.labels then
          .error (.ofType .alreadyRegistered label)
        else
          .ok ((), ⟨d.checks, d.constructors
            ++ [(label, .constructor label item.name item.attributes)]⟩) := by
    rw [run_bind, run_isTaken]
    by_cases h : label = item.name ∨ (item.lookup label).isSome ∨ label ∈ d.labels
    · rw [decide_eq_true h, if_pos h]
      rfl
    · rw [decide_eq_false h, if_neg h]
      rfl
  rw [← hrest]
  show ((liftM (Naming.checkTypeName label) : Drafting Unit).run item).run d >>= _ = _
  rw [run_checked]
  cases Naming.checkTypeName label <;> rfl

end

/-- If the computation succeeds on the draft, `post` holds of its result and of the draft that it
leaves. -/
def Ensures {α : Type} (item : Item) (d : Draft) (x : Drafting α) (post : α → Draft → Prop) :
    Prop :=
  ∀ (a : α) (d' : Draft), (x.run item).run d = .ok (a, d') → post a d'

section

variable {α β : Type} {item : Item} {d : Draft} {P : α → Draft → Prop} {Q : β → Draft → Prop}

theorem Ensures.bind {x : Drafting α} {f : α → Drafting β} (hx : Ensures item d x P)
    (hf : ∀ a d', P a d' → Ensures item d' (f a) Q) : Ensures item d (x >>= f) Q := by
  intro b d' hrun
  rw [run_bind] at hrun
  obtain ⟨⟨a, d₁⟩, hfirst, hrest⟩ := except_bind_eq_ok.1 hrun
  exact hf a d₁ (hx a d₁ hfirst) b d' hrest

theorem ensures_pure {a : α} (h : P a d) : Ensures item d (pure a) P := by
  intro b d' hrun
  cases hrun
  exact h

theorem ensures_throw (e : TypeError) (P : α → Draft → Prop) : Ensures item d (throw e) P := by
  intro a d' hrun
  cases hrun

/-- A step that reads the item goes on with it. -/
theorem Ensures.read {f : Item → Drafting β} (h : Ensures item d (f item) Q) :
    Ensures item d (MonadReader.read >>= f) Q :=
  h

/-- A rule of naming adds nothing to the draft. -/
theorem Ensures.checked {x : Except TypeError α} {f : α → Drafting β}
    (h : ∀ a, Ensures item d (f a) Q) : Ensures item d (liftM x >>= f) Q := by
  refine .bind (P := fun _ d' => d' = d) (fun a d' hrun => ?_) fun a d' hd => ?_
  · rw [run_checked] at hrun
    obtain ⟨_, -, heq⟩ := except_map_eq_ok.1 hrun
    cases heq
    rfl
  · rw [hd]
    exact h a

/-- A case label that can be declared is a new name. -/
theorem ensures_declareCase (label : String) :
    Ensures item d (declareCase label) fun _ d' =>
      label ≠ item.name ∧ item.lookup label = none ∧ label ∉ d.labels ∧
        d' = ⟨d.checks, d.constructors
          ++ [(label, .constructor label item.name item.attributes)]⟩ := by
  intro _ d' hrun
  rw [run_declareCase] at hrun
  obtain ⟨_, -, hrun⟩ := except_bind_eq_ok.1 hrun
  split_ifs at hrun with htaken
  cases hrun
  rw [not_or, not_or, Bool.not_eq_true, Option.isSome_eq_false_iff, Option.isNone_iff_eq_none]
    at htaken
  exact ⟨htaken.1, htaken.2.1, htaken.2.2, rfl⟩

end

/-- **The case labels of a lawful draft stay new names.** -/
theorem Lawful.fresh {α : Type} {x : Drafting α} (hx : Lawful x) {item : Item} {d d' : Draft}
    {a : α} (h : (x.run item).run d = .ok (a, d')) (hd : d.Fresh item) : d'.Fresh item := by
  induction hx generalizing d d' with
  | pure | read | get? | require =>
    cases h
    exact ⟨hd.nodup, hd.name, hd.unseen, hd.stands⟩
  | throw => cases h
  | declareCase label =>
    obtain ⟨hname, hlookup, hlabel, rfl⟩ := ensures_declareCase label _ _ h
    have hlabels : Draft.labels ⟨d.checks, d.constructors
        ++ [(label, .constructor label item.name item.attributes)]⟩ = d.labels ++ [label] := by
      simp [Draft.labels]
    refine ⟨?_, ?_, ?_, ?_⟩
    · rw [hlabels, List.nodup_append]
      exact ⟨hd.nodup, by simp, fun l hl m hm => by
        rw [List.mem_singleton.1 hm]
        rintro rfl
        exact hlabel hl⟩
    · rw [hlabels, List.mem_append, List.mem_singleton]
      rintro (hmem | rfl)
      · exact hd.name hmem
      · exact hname rfl
    · intro l hl
      rw [hlabels, List.mem_append, List.mem_singleton] at hl
      rcases hl with hl | rfl
      · exact hd.unseen l hl
      · exact hlookup
    · intro p hp
      rcases List.mem_append.1 hp with hp | hp
      · exact hd.stands p hp
      · rw [List.mem_singleton.1 hp]
  | bind _ _ ihx ihf =>
    rw [run_bind] at h
    obtain ⟨⟨b, e⟩, hb, h⟩ := except_bind_eq_ok.1 h
    exact ihf b h (ihx hb hd)
  | @recover α x handle _ _ ihx ihh =>
    have hrun : ((tryCatch x handle).run item).run d
        = match (x.run item).run d with
          | .ok r => .ok r
          | .error e => ((handle e).run item).run d := by
      show tryCatch ((x.run item).run d) (fun e => ((handle e).run item).run d) = _
      cases (x.run item).run d <;> rfl
    rw [hrun] at h
    cases hr : (x.run item).run d with
    | ok r =>
      rw [hr] at h
      cases h
      exact ihx hr hd
    | error e =>
      rw [hr] at h
      exact ihh e h hd

end Drafting

/-! ## The entries of a builder -/

theorem lookupIn_eq_none {parent : Option Registry} {entries : List Entry} {name : String} :
    lookupIn parent entries name = none
      ↔ name ∉ entries.map (·.name) ∧ parent.bind (·.get? name) = none := by
  rw [lookupIn]
  cases hf : entries.find? (·.name == name) with
  | none =>
    have : name ∉ entries.map (·.name) := by
      intro hmem
      obtain ⟨e, he, rfl⟩ := List.mem_map.1 hmem
      simpa using List.find?_eq_none.1 hf e he
    simp [this]
  | some e =>
    have : name ∈ entries.map (·.name) :=
      List.mem_map.2 ⟨e, List.mem_of_find?_eq_some hf, by simpa using List.find?_some hf⟩
    simp [this]

namespace Builder

/-- No two entries have one name, and no entry has a name that is visible in the parent. -/
structure Distinct (b : Builder) : Prop where
  nodup : (b.entries.map (·.name)).Nodup
  unseen : ∀ e ∈ b.entries, b.parent.bind (·.get? e.name) = none

/-- What a registration that succeeds adds. -/
theorem create_eq_ok {b : Builder} {r : Registration} {ty : Ty} {added : List Entry}
    (h : b.create r = .ok (ty, added)) :
    b.lookup r.name = none ∧ ∃ drafted draft,
      (r.factory.run ⟨r.name, r.attributes, b.lookup⟩).run ⟨[], []⟩ = .ok (drafted, draft) ∧
      ty = annotate r.directives (declare r.name r.attributes drafted) ∧
      added = ⟨r.name, ty, draft.checks, none⟩ ::
        draft.constructors.map fun p => ⟨p.1, p.2, [], some r.name⟩ := by
  rw [create] at h
  obtain ⟨_, -, h⟩ := except_bind_eq_ok.1 h
  split_ifs at h with htaken
  obtain ⟨⟨drafted, draft⟩, hrun, h⟩ := except_bind_eq_ok.1 h
  cases h
  rw [Bool.not_eq_true, Option.isSome_eq_false_iff, Option.isNone_iff_eq_none] at htaken
  exact ⟨htaken, drafted, draft, hrun, rfl, rfl⟩

theorem register_parent (b : Builder) (r : Registration) : (b.register r).2.parent = b.parent := by
  rw [register]
  split <;> rfl

theorem register_distinct {b : Builder} (hb : b.Distinct) {r : Registration} (hr : r.Lawful) :
    (b.register r).2.Distinct := by
  rw [register]
  split
  next ty added h =>
    obtain ⟨hname, drafted, draft, hrun, -, rfl⟩ := create_eq_ok h
    have hfresh := hr.fresh hrun (Draft.fresh_nil _ _)
    have hnames : ((b.entries ++ ⟨r.name, ty, draft.checks, none⟩ ::
          draft.constructors.map fun p => (⟨p.1, p.2, [], some r.name⟩ : Entry)).map (·.name))
        = b.entries.map (·.name) ++ r.name :: draft.labels := by
      simp [Draft.labels]
    have hadded {name : String} (hmem : name ∈ r.name :: draft.labels) : b.lookup name = none := by
      rcases List.mem_cons.1 hmem with rfl | hmem
      · exact hname
      · exact hfresh.unseen name hmem
    refine ⟨?_, fun e he => ?_⟩
    · rw [hnames, List.nodup_append]
      refine ⟨hb.nodup, List.nodup_cons.2 ⟨hfresh.name, hfresh.nodup⟩, ?_⟩
      rintro name hold _ hnew rfl
      exact (lookupIn_eq_none.1 (hadded hnew)).1 hold
    · rcases List.mem_append.1 he with he | he
      · exact hb.unseen e he
      · have hmem : e.name ∈ r.name :: draft.labels := by
          have := List.mem_map_of_mem (f := (·.name)) he
          simpa [Draft.labels] using this
        exact (lookupIn_eq_none.1 (hadded hmem)).2
  next e h => exact ⟨hb.nodup, hb.unseen⟩

theorem registerAll_parent (b : Builder) (rs : List Registration) :
    (b.registerAll rs).2.parent = b.parent := by
  induction rs generalizing b with
  | nil => rfl
  | cons r rs ih => exact (ih _).trans (register_parent b r)

/-- **Names stay distinct,** whatever is registered and whether it succeeds. -/
theorem registerAll_distinct {b : Builder} (hb : b.Distinct) {rs : List Registration}
    (hrs : ∀ r ∈ rs, r.Lawful) : (b.registerAll rs).2.Distinct := by
  induction rs generalizing b with
  | nil => exact hb
  | cons r rs ih =>
    exact ih (register_distinct hb (hrs r (by simp))) fun q hq => hrs q (by simp [hq])

theorem distinct_of_entries_eq_nil {b : Builder} (h : b.entries = []) : b.Distinct := by
  refine ⟨?_, ?_⟩ <;> rw [h]
  · exact List.nodup_nil
  · exact fun _ h => (nomatch h)

end Builder

/-! ## Built registries -/

theorem settle_sublist (parent : Option Registry) (n : Nat) (kept : List Entry) :
    (settle parent n kept).1.Sublist kept := by
  induction n generalizing kept with
  | zero => exact List.Sublist.refl _
  | succ n ih =>
    rw [settle]
    dsimp only
    split_ifs
    · exact List.Sublist.refl _
    · exact (ih _).trans List.filter_sublist

/-- The entries that a builder keeps when it builds its registry. -/
def Builder.kept (b : Builder) : List Entry :=
  (settle b.parent b.entries.length b.entries).1

theorem Builder.build_catalog (b : Builder) :
    b.build.value.toCatalog
      = ⟨b.parent.map (·.toCatalog), b.kept.map fun e => (e.name, e.ty), []⟩ :=
  rfl

theorem Builder.build_layered {b : Builder} (hb : b.Distinct)
    (hparent : ∀ P, b.parent = some P → P.toCatalog.Layered) :
    b.build.value.toCatalog.Layered := by
  rw [Builder.build_catalog]
  cases hP : b.parent with
  | none => exact .base _
  | some P =>
    refine .above (hparent P hP) fun p hp => ?_
    obtain ⟨e, he, rfl⟩ := List.mem_map.1 hp
    have hunseen := hb.unseen e ((settle_sublist _ _ _).subset he)
    rw [hP] at hunseen
    exact Option.map_eq_none_iff.1 hunseen

/-- A registry that is built by lawful registrations alone, and so is everything below it. -/
inductive BuiltInLayers : Built → Prop
  | root {rs : List Registration} : (∀ r ∈ rs, r.Lawful) →
      BuiltInLayers (Builder.new.registerAll rs).2.build
  | above {parent : Built} {rs : List Registration} : BuiltInLayers parent →
      (∀ r ∈ rs, r.Lawful) → BuiltInLayers ((Builder.withParent parent).registerAll rs).2.build

/-- **What is built in layers is layered.** -/
theorem BuiltInLayers.layered {B : Built} (h : BuiltInLayers B) : B.value.toCatalog.Layered := by
  induction h with
  | root hrs =>
    refine Builder.build_layered
      (Builder.registerAll_distinct (Builder.distinct_of_entries_eq_nil rfl) hrs) ?_
    rw [Builder.registerAll_parent]
    exact fun _ h => (nomatch h)
  | above _ hrs ih =>
    refine Builder.build_layered
      (Builder.registerAll_distinct (Builder.distinct_of_entries_eq_nil rfl) hrs) ?_
    rw [Builder.registerAll_parent]
    rintro P hP
    cases hP
    exact ih

end TypeEngine
