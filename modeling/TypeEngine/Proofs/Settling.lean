import Mathlib.Data.List.Nodup
import TypeEngine.Proofs.Drafts

/-!
# Settling on consistent entries

A builder drops entries in rounds. Some entries are consistent over a parent when each of them
passes its checks against just these entries and the parent, and the union of every case label is
among them (`Consistent`). What is left after the last round is consistent, because each round that
does not stop drops an entry and there are as many rounds as entries (`settle_consistent`).

It is also the most that can be left. In a round no entry of a consistent part is dropped, provided
that its checks are steady: they pass against the part, and what is still there only declares more
(`subset_settle`). The entries of regular registrations have steady checks (`Entry.Sound.steady`).
So regular registrations build the greatest consistent part of what was accepted (`build_greatest`),
and their order does not matter.
-/

namespace TypeEngine

/-! ## Consistent entries -/

/-- Each of the entries passes its checks against them and the parent, and the unions of case labels
are among them. -/
def Consistent (parent : Option Registry) (S : List Entry) : Prop :=
  ∀ e ∈ S, Check.Pass (lookupIn parent S) e.checks ∧
    ∀ owner, e.owner = some owner → ∃ f ∈ S, f.name = owner

theorem Entry.stays_iff {parent : Option Registry} {kept : List Entry} {e : Entry} :
    e.stays parent kept = true ↔ Check.Pass (lookupIn parent kept) e.checks ∧
      ∀ owner, e.owner = some owner → ∃ f ∈ kept, f.name = owner := by
  have howner : e.ownerKept kept = true
      ↔ ∀ owner, e.owner = some owner → ∃ f ∈ kept, f.name = owner := by
    rw [ownerKept]
    cases e.owner <;> simp
  have hchecks : (e.failures parent kept).isEmpty = true
      ↔ Check.Pass (lookupIn parent kept) e.checks := by
    rw [failures, List.isEmpty_iff, List.filterMap_eq_nil_iff]
    rfl
  rw [stays, Bool.and_eq_true, howner, hchecks, and_comm]

/-- **What is left in the end is consistent.** -/
theorem settle_consistent (parent : Option Registry) {n : Nat} {kept : List Entry}
    (hn : kept.length ≤ n) : Consistent parent (settle parent n kept).1 := by
  induction n generalizing kept with
  | zero =>
    rw [settle, List.eq_nil_of_length_eq_zero (Nat.le_zero.1 hn)]
    intro e he
    cases he
  | succ n ih =>
    rw [settle]
    dsimp only
    split_ifs with hsame
    · -- Nothing was dropped in this round.
      have hall := List.filter_eq_self.1 (List.filter_sublist.eq_of_length hsame)
      exact fun e he => Entry.stays_iff.1 (hall e he)
    · refine ih ?_
      have := List.length_filter_le (·.stays parent kept) kept
      omega

/-! ## Entries with names of their own -/

namespace Builder.Distinct

variable {b : Builder} {S K : List Entry}

theorem eq_of_name (hb : b.Distinct) {e f : Entry} (he : e ∈ b.entries) (hf : f ∈ b.entries)
    (h : e.name = f.name) : e = f :=
  List.inj_on_of_nodup_map hb.nodup he hf h

theorem lookupIn_of_mem (hb : b.Distinct) (hS : S ⊆ b.entries) {e : Entry} (he : e ∈ S) :
    lookupIn b.parent S e.name = some e.ty := by
  rw [lookupIn]
  cases hf : S.find? (·.name == e.name) with
  | none => simpa using List.find?_eq_none.1 hf e he
  | some f =>
    have hname : f.name = e.name := by simpa using List.find?_some hf
    rw [hb.eq_of_name (hS (List.mem_of_find?_eq_some hf)) (hS he) hname]

/-- More entries declare more, and no entry hides another one or the parent. -/
theorem lookupIn_extends (hb : b.Distinct) (hSK : S ⊆ K) (hK : K ⊆ b.entries) :
    Lookup.Extends (lookupIn b.parent S) (lookupIn b.parent K) := by
  intro name ty h
  rw [lookupIn] at h
  cases hf : S.find? (·.name == name) with
  | some e =>
    rw [hf] at h
    cases h
    have hname : e.name = name := by simpa using List.find?_some hf
    rw [← hname]
    exact hb.lookupIn_of_mem hK (hSK (List.mem_of_find?_eq_some hf))
  | none =>
    rw [hf] at h
    rw [lookupIn]
    cases hg : K.find? (·.name == name) with
    | none => exact h
    | some f =>
      have hname : f.name = name := by simpa using List.find?_some hg
      have hunseen := hb.unseen f (hK (List.mem_of_find?_eq_some hg))
      rw [hname] at hunseen
      rw [hunseen] at h
      cases h

/-- **Nothing consistent is ever dropped.** -/
theorem subset_settle (hb : b.Distinct) (hsteady : ∀ e ∈ b.entries, Check.Steady e.checks)
    (hS : Consistent b.parent S) (n : Nat) (hSK : S ⊆ K) (hK : K ⊆ b.entries) :
    S ⊆ (settle b.parent n K).1 := by
  induction n generalizing K with
  | zero => exact hSK
  | succ n ih =>
    rw [settle]
    dsimp only
    split_ifs
    · exact hSK
    · refine ih (fun e he => List.mem_filter.2 ⟨hSK he, Entry.stays_iff.2 ?_⟩)
        fun e he => hK (List.mem_of_mem_filter he)
      obtain ⟨hpass, howner⟩ := hS e he
      refine ⟨hsteady e (hK (hSK he)) (hb.lookupIn_extends hSK hK) hpass, fun owner h => ?_⟩
      obtain ⟨f, hf, hname⟩ := howner owner h
      exact ⟨f, hSK hf, hname⟩

end Builder.Distinct

/-! ## Entries of regular registrations -/

/-- An entry among `entries` that a regular registration has made: a type with its checks, whose
case labels are entries as well, or a case label. -/
inductive Entry.Sound (entries : List Entry) : Entry → Prop
  | type {name : String} {ty : Ty} {d : Draft} : Check.Steady d.checks → ty.ConstructorFree →
      (∀ p ∈ d.constructors, ⟨p.1, p.2, [], some name⟩ ∈ entries) →
      (∀ types, d.Holds types → ty.Fits types name) → Sound entries ⟨name, ty, d.checks, none⟩
  | label (label owner : String) (attributes : Attributes) :
      Sound entries ⟨label, .constructor label owner attributes, [], some owner⟩

theorem Entry.Sound.steady {entries : List Entry} {e : Entry} (h : e.Sound entries) :
    Check.Steady e.checks := by
  cases h with
  | type hsteady => exact hsteady
  | label => exact Check.steady_nil

theorem Entry.Sound.mono {entries entries' : List Entry} (hsub : entries ⊆ entries') {e : Entry}
    (h : e.Sound entries) : e.Sound entries' := by
  cases h with
  | type hsteady hfree hlabels hfits =>
    exact .type hsteady hfree (fun p hp => hsub (hlabels p hp)) hfits
  | label => exact .label ..

theorem Entry.Sound.constructorFree {entries : List Entry} {e : Entry} (h : e.Sound entries)
    (howner : e.owner = none) : e.ty.ConstructorFree := by
  cases h with
  | type _ hfree => exact hfree
  | label => cases howner

/-- What holds everywhere in a type holds everywhere in its registered form. -/
theorem Ty.Everywhere.declared {P : Ty → Prop} {name : String} {attributes : Attributes}
    {directives : List Directive} {ty : Ty} (h : ty.Everywhere P)
    (hconcrete : P (.concrete name attributes))
    (halias : ∀ target, P (.reference target) → P (.typeAlias target attributes))
    (hannotated : ∀ t, P (.annotated directives t)) :
    (Builder.annotate directives (Builder.declare name attributes ty)).Everywhere P := by
  have hdeclare : (Builder.declare name attributes ty).Everywhere P := by
    cases ty with
    | reference target =>
      rw [Builder.declare]
      split_ifs with htarget
      · rw [htarget]
        exact .leaf hconcrete rfl
      · cases h with
        | node hat _ => exact .leaf (halias target hat) rfl
    | _ => exact h
  rw [Builder.annotate]
  split_ifs
  · exact hdeclare
  · refine .node (hannotated _) fun t ht => ?_
    rw [List.mem_singleton.1 ht]
    exact hdeclare

namespace Builder

/-- All entries are sound. -/
def Sound (b : Builder) : Prop :=
  ∀ e ∈ b.entries, e.Sound b.entries

theorem register_sound {b : Builder} (hb : b.Sound) {r : Registration} (hr : r.Regular) :
    (b.register r).2.Sound := by
  rw [register]
  split
  next ty added h =>
    obtain ⟨-, drafted, draft, hrun, rfl, rfl⟩ := create_eq_ok h
    obtain ⟨made, hsteps, hmade⟩ := hr.steps hrun
    obtain ⟨hsteady, hstands, hfree, hfits⟩ := hsteps.sound
    intro e he
    rcases List.mem_append.1 he with he | he
    · exact (hb e he).mono (List.subset_append_left _ _)
    · rcases List.mem_cons.1 he with rfl | he
      · refine .type hsteady ((hfree _ hmade).declared rfl (fun _ _ => rfl) fun _ => rfl)
          (fun p hp => ?_) fun types hholds =>
            (hfits types hholds _ hmade).declared trivial (fun _ h => h) fun _ => trivial
        exact List.mem_append_right _ (List.mem_cons_of_mem _ (List.mem_map.2 ⟨p, hp, rfl⟩))
      · obtain ⟨p, hp, rfl⟩ := List.mem_map.1 he
        dsimp only
        rw [hstands p hp]
        exact .label ..
  next e h => exact hb

theorem registerAll_sound {b : Builder} (hb : b.Sound) {rs : List Registration}
    (hrs : ∀ r ∈ rs, r.Regular) : (b.registerAll rs).2.Sound := by
  induction rs generalizing b with
  | nil => exact hb
  | cons r rs ih =>
    exact ih (register_sound hb (hrs r (by simp))) fun q hq => hrs q (by simp [hq])

/-- A builder over the given parent, if there is one. -/
def start : Option Built → Builder
  | none => new
  | some parent => withParent parent

theorem start_entries (parent : Option Built) : (start parent).entries = [] := by
  cases parent <;> rfl

theorem start_parent (parent : Option Built) :
    (start parent).parent = parent.map (·.value) := by
  cases parent <;> rfl

/-- The builder after the registrations, over the given parent. -/
def registering (parent : Option Built) (rs : List Registration) : Builder :=
  ((start parent).registerAll rs).2

theorem registering_parent (parent : Option Built) (rs : List Registration) :
    (registering parent rs).parent = parent.map (·.value) :=
  (registerAll_parent _ _).trans (start_parent parent)

theorem registering_distinct (parent : Option Built) {rs : List Registration}
    (hrs : ∀ r ∈ rs, r.Regular) : (registering parent rs).Distinct :=
  registerAll_distinct (distinct_of_entries_eq_nil (start_entries parent)) fun r hr =>
    (hrs r hr).lawful

theorem registering_sound (parent : Option Built) {rs : List Registration}
    (hrs : ∀ r ∈ rs, r.Regular) : (registering parent rs).Sound := by
  refine registerAll_sound ?_ hrs
  intro e he
  rw [start_entries] at he
  cases he

/-- The builder after the declarations, over the given parent. -/
def declaring (parent : Option Built) (ds : List Declaration) : Builder :=
  ((start parent).declareAll ds).2

theorem declaring_parent (parent : Option Built) (ds : List Declaration) :
    (declaring parent ds).parent = parent.map (·.value) :=
  registering_parent parent _

end Builder

/-! ## The greatest consistent part -/

/-- `S` is the greatest consistent part of `entries` over the parent. -/
structure GreatestConsistent (parent : Option Registry) (entries S : List Entry) : Prop where
  sublist : S.Sublist entries
  consistent : Consistent parent S
  greatest : ∀ T ⊆ entries, Consistent parent T → T ⊆ S

theorem GreatestConsistent.perm {parent : Option Registry} {entries entries' S S' : List Entry}
    (h : GreatestConsistent parent entries S) (h' : GreatestConsistent parent entries' S')
    (hperm : entries.Perm entries') (hnodup : entries.Nodup) : S.Perm S' := by
  refine (List.perm_ext_iff_of_nodup (hnodup.sublist h.sublist)
    ((hperm.nodup_iff.1 hnodup).sublist h'.sublist)).2 fun e => ⟨fun he => ?_, fun he => ?_⟩
  · exact h'.greatest S (fun f hf => hperm.subset (h.sublist.subset hf)) h.consistent he
  · exact h.greatest S' (fun f hf => hperm.symm.subset (h'.sublist.subset hf)) h'.consistent he

theorem Builder.kept_greatest (parent : Option Built) {rs : List Registration}
    (hrs : ∀ r ∈ rs, r.Regular) :
    GreatestConsistent (parent.map (·.value)) (registering parent rs).entries
      (registering parent rs).kept := by
  rw [← registering_parent parent rs]
  refine ⟨settle_sublist .., settle_consistent _ (Nat.le_refl _), fun S hS hcons => ?_⟩
  exact (registering_distinct parent hrs).subset_settle
    (fun e he => (registering_sound parent hrs e he).steady) hcons _ hS (List.Subset.refl _)

/-- **The built registry is the greatest consistent one.** It has the greatest consistent part of
the accepted entries, and the same part if these were accepted in any other order. -/
theorem build_greatest (parent : Option Built) {rs : List Registration}
    (hrs : ∀ r ∈ rs, r.Regular) :
    (∃ kept,
      GreatestConsistent (parent.map (·.value)) (Builder.registering parent rs).entries kept ∧
      (Builder.registering parent rs).build.value.entries = kept.map fun e => (e.name, e.ty)) ∧
    ∀ rs' : List Registration, (∀ r ∈ rs', r.Regular) →
      (Builder.registering parent rs').entries.Perm (Builder.registering parent rs).entries →
      (Builder.registering parent rs').build.value.entries.Perm
        (Builder.registering parent rs).build.value.entries := by
  have hgreatest := Builder.kept_greatest parent hrs
  refine ⟨⟨_, hgreatest, rfl⟩, fun rs' hrs' hperm => ?_⟩
  have hnodup : (Builder.registering parent rs').entries.Nodup :=
    (Builder.registering_distinct parent hrs').nodup.of_map
  exact ((Builder.kept_greatest parent hrs').perm hgreatest hperm hnodup).map _

/-- Crates are boxes, but there are no boxes. So there are no stacks of crates, and no tops of
stacks. -/
def crates : List Declaration :=
  [.concrete "Int",
    .type "Top" ∅ [] (.reference "Push"),
    .union "Stack" [⟨"Empty", []⟩, ⟨"Push", [.reference "Crate", .reference "Stack"]⟩],
    .type "Crate" ∅ [] (.parametric "Box" [.reference "Int"]),
    .union "Tree" [⟨"Leaf", []⟩, ⟨"Node", [.reference "Tree", .reference "Int"]⟩]]

/-- A lid declares a knob as a case label, refers to trees and drops the reference, fails to be a
function, and is a concrete type after all. -/
def lid : Registration :=
  ⟨"Lid", ∅, [], do
    Drafting.declareCase "Knob"
    let _ ← Drafting.reference "Tree"
    tryCatch (Drafting.function []) fun _ => Drafting.concrete⟩

theorem lid_regular : lid.Regular := by
  have hleads (item : Item) : Drafting.Leads item .start lid.factory fun t q => t ∈ q.made := by
    refine (Drafting.leads_declareCase "Knob").bind fun _ _ _ _ =>
      (Drafting.leads_reference "Tree").bind fun _ q _ _ => ?_
    -- The computation that recovers does what a concrete type takes.
    exact (.read (Drafting.leads_return .concrete) :
      Drafting.Leads item q Drafting.concrete fun t q => t ∈ q.made)
  refine ⟨?_, fun hrun => hleads _ _ _ hrun⟩
  exact .bind (.declareCase _) fun _ => .bind (Drafting.lawful_reference _) fun _ =>
    .recover (Drafting.lawful_function _) fun _ => .bind .read fun _ => .pure _

theorem build_greatest_crates :
    (∀ r ∈ lid :: crates.map Declaration.registration, r.Regular) ∧
      (Builder.registering none (lid :: crates.map Declaration.registration)).build.value.names
        = ["Lid", "Knob", "Int", "Tree", "Leaf", "Node"] ∧
      ∃ kept, GreatestConsistent none
          (Builder.registering none (lid :: crates.map Declaration.registration)).entries kept ∧
        (Builder.registering none (lid :: crates.map Declaration.registration)).build.value.entries
          = kept.map fun e => (e.name, e.ty) := by
  have h : ∀ r ∈ lid :: crates.map Declaration.registration, r.Regular :=
    List.forall_mem_cons.2 ⟨lid_regular, regular_registrations (by decide +kernel)⟩
  exact ⟨h, by decide +kernel, (build_greatest none h).1⟩

end TypeEngine
