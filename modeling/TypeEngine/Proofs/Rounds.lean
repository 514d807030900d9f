import Mathlib.Data.List.Perm.Subperm
import Mathlib.Logic.Function.Iterate
import TypeEngine.Proofs.Attempts

/-!
# What a builder drops, and what it reports

A builder drops entries in rounds. A round keeps the entries that stay when just the entries before
it are registered (`keepStaying`). Stopping at the first round that drops nothing makes no
difference, so `settle` is the iteration of rounds, and its errors are what the entries before each
round report in it (`settle_eq`).

An entry that is no case label is dropped in the round in which one of its own checks fails, and
reports there and nowhere else (`Builder.dropped_iff`, `Builder.Reports.unique`). A case label has
no checks. It is dropped in the round after its union (`Builder.label_dropped_iff`). So if nothing
is reported, then nothing is dropped.
-/

namespace TypeEngine

/-! ## Rounds -/

/-- One round: the entries that stay when just these are registered. -/
def keepStaying (parent : Option Registry) (kept : List Entry) : List Entry :=
  kept.filter (·.stays parent kept)

/-- What the entries report before a round. -/
def reportAll (parent : Option Registry) (kept : List Entry) : List TypeError :=
  kept.flatMap (·.report parent kept)

theorem Entry.report_of_stays {parent : Option Registry} {kept : List Entry} {e : Entry}
    (h : e.stays parent kept = true) : e.report parent kept = [] := by
  rw [stays, Bool.and_eq_true, List.isEmpty_iff] at h
  rw [report, if_pos h.1, h.2]

/-- **Settling is the iteration of rounds.** -/
theorem settle_eq (parent : Option Registry) (n : Nat) (kept : List Entry) :
    settle parent n kept = ((keepStaying parent)^[n] kept,
      (List.range n).flatMap fun i => reportAll parent ((keepStaying parent)^[i] kept)) := by
  induction n generalizing kept with
  | zero => rfl
  | succ n ih =>
    rw [settle]
    dsimp only
    split_ifs with hsame
    · -- Nothing is dropped, so no later round drops or reports anything.
      have hfix : keepStaying parent kept = kept := List.filter_sublist.eq_of_length hsame
      have hreport : reportAll parent kept = [] := by
        refine List.flatMap_eq_nil_iff.2 fun e he => Entry.report_of_stays ?_
        exact List.filter_eq_self.1 hfix e he
      simp only [Function.iterate_fixed hfix, hreport]
      simp
    · rw [show kept.filter (·.stays parent kept) = keepStaying parent kept from rfl, ih,
        List.range_succ_eq_map, List.flatMap_cons, List.flatMap_map]
      rfl

/-! ## The rounds of a builder -/

namespace Builder

/-- What is left after some rounds. -/
def remaining (b : Builder) (i : Nat) : List Entry :=
  (keepStaying b.parent)^[i] b.entries

/-- An entry reports in a round: it is still there, and has something to report. -/
def Reports (b : Builder) (i : Nat) (e : Entry) : Prop :=
  e ∈ b.remaining i ∧ e.report b.parent (b.remaining i) ≠ []

variable {b : Builder} {e : Entry} {i j : Nat}

theorem remaining_succ (b : Builder) (i : Nat) :
    b.remaining (i + 1) = keepStaying b.parent (b.remaining i) :=
  Function.iterate_succ_apply' ..

theorem mem_remaining_succ :
    e ∈ b.remaining (i + 1)
      ↔ e ∈ b.remaining i ∧ e.stays b.parent (b.remaining i) = true := by
  rw [remaining_succ, keepStaying, List.mem_filter]

theorem remaining_subset (h : i ≤ j) : b.remaining j ⊆ b.remaining i := by
  induction h with
  | refl => exact List.Subset.refl _
  | step _ ih => exact fun e he => ih (mem_remaining_succ.1 he).1

theorem kept_eq (b : Builder) : b.kept = b.remaining b.entries.length := by
  rw [kept, settle_eq]
  rfl

theorem deferred_eq (b : Builder) :
    b.deferred
      = (List.range b.entries.length).flatMap fun i => reportAll b.parent (b.remaining i) := by
  rw [deferred, settle_eq]
  rfl

/-- Who reports is dropped in that round. -/
theorem Reports.not_mem (h : b.Reports i e) : e ∉ b.remaining (i + 1) := fun hmem =>
  h.2 (Entry.report_of_stays (mem_remaining_succ.1 hmem).2)

/-- **No entry reports twice.** -/
theorem Reports.unique (hi : b.Reports i e) (hj : b.Reports j e) : i = j := by
  rcases Nat.lt_trichotomy i j with h | h | h
  · exact absurd (remaining_subset h hj.1) hi.not_mem
  · exact h
  · exact absurd (remaining_subset h hi.1) hj.not_mem

/-- An entry that is dropped is dropped in one of the rounds. -/
theorem exists_round_of_not_mem (he : e ∈ b.entries) {n : Nat} (h : e ∉ b.remaining n) :
    ∃ i < n, e ∈ b.remaining i ∧ e.stays b.parent (b.remaining i) = false := by
  induction n with
  | zero => exact absurd he h
  | succ n ih =>
    by_cases hn : e ∈ b.remaining n
    · rw [mem_remaining_succ, not_and, Bool.not_eq_true] at h
      exact ⟨n, n.lt_succ_self, hn, h hn⟩
    · obtain ⟨i, hi, hround⟩ := ih hn
      exact ⟨i, Nat.lt_succ_of_lt hi, hround⟩

/-- After as many rounds as there are entries, nothing changes any more. -/
theorem remaining_eq_kept (h : b.entries.length ≤ i) : b.remaining i = b.kept := by
  induction h with
  | refl => exact b.kept_eq.symm
  | step _ ih =>
    rw [remaining_succ, ih, keepStaying, List.filter_eq_self]
    exact fun e he => Entry.stays_iff.2 (settle_consistent b.parent (Nat.le_refl _) e he)

theorem Reports.lt_length (h : b.Reports i e) : i < b.entries.length := by
  by_contra hle
  have hle : b.entries.length ≤ i := Nat.le_of_not_lt hle
  refine h.not_mem ?_
  rw [remaining_eq_kept (Nat.le_succ_of_le hle), ← remaining_eq_kept hle]
  exact h.1

theorem Reports.not_mem_kept (h : b.Reports i e) : e ∉ b.kept := by
  rw [kept_eq]
  exact fun hmem => h.not_mem (remaining_subset h.lt_length hmem)

theorem Reports.deferred_ne_nil (h : b.Reports i e) : b.deferred ≠ [] := by
  intro hnil
  rw [deferred_eq, List.flatMap_eq_nil_iff] at hnil
  exact h.2 (List.flatMap_eq_nil_iff.1 (hnil i (List.mem_range.2 h.lt_length)) e h.1)

/-- **An entry that is no case label is dropped just if it reports.** -/
theorem dropped_iff (he : e ∈ b.entries) (howner : e.owner = none) :
    e ∉ b.kept ↔ ∃ i < b.entries.length, b.Reports i e := by
  have hkept (kept : List Entry) : e.ownerKept kept = true := by rw [Entry.ownerKept, howner]
  constructor
  · intro h
    rw [kept_eq] at h
    obtain ⟨i, hi, hmem, hstays⟩ := exists_round_of_not_mem he h
    refine ⟨i, hi, hmem, ?_⟩
    rw [Entry.stays, hkept, Bool.true_and, List.isEmpty_eq_false_iff] at hstays
    rw [Entry.report, if_pos (hkept _)]
    exact hstays
  · rintro ⟨i, -, h⟩
    exact h.not_mem_kept

/-! ## Accepted entries -/

/-- Every case label goes with an entry that is none, and has no checks of its own. -/
def Labelled (b : Builder) : Prop :=
  ∀ e ∈ b.entries, ∀ owner, e.owner = some owner →
    e.checks = [] ∧ ∃ d ∈ b.entries, d.name = owner ∧ d.owner = none

/-- The entries that are no case labels. -/
def types (b : Builder) : List (String × Ty) :=
  (b.entries.filter (·.owner.isNone)).map fun e => (e.name, e.ty)

theorem register_labelled (hb : b.Labelled) (r : Registration) : (b.register r).2.Labelled := by
  rw [register]
  split
  next ty added h =>
    obtain ⟨-, drafted, draft, -, -, rfl⟩ := create_eq_ok h
    intro e he owner howner
    rcases List.mem_append.1 he with he | he
    · obtain ⟨hchecks, d, hd, hdeclares⟩ := hb e he owner howner
      exact ⟨hchecks, d, List.mem_append_left _ hd, hdeclares⟩
    · rcases List.mem_cons.1 he with rfl | he
      · cases howner
      · obtain ⟨p, -, rfl⟩ := List.mem_map.1 he
        cases howner
        exact ⟨rfl, _, List.mem_append_right _ (List.mem_cons_self ..), rfl, rfl⟩
  next => exact hb

theorem register_types (b : Builder) (r : Registration) :
    (b.register r).2.types = b.types ++ (Attempt.mk r (b.register r).1).accepted?.toList := by
  rw [register]
  split
  next ty added h =>
    obtain ⟨-, drafted, draft, -, -, rfl⟩ := create_eq_ok h
    have hlabels : (draft.constructors.map fun p => (⟨p.1, p.2, [], some r.name⟩ : Entry)).filter
        (·.owner.isNone) = [] := by
      refine List.filter_eq_nil_iff.2 fun e he => ?_
      obtain ⟨p, -, rfl⟩ := List.mem_map.1 he
      simp
    simp [types, hlabels, Attempt.accepted?]
  next => simp [types, Attempt.accepted?]

theorem registerAll_labelled (hb : b.Labelled) (rs : List Registration) :
    (b.registerAll rs).2.Labelled := by
  induction rs generalizing b with
  | nil => exact hb
  | cons r rs ih => exact ih (register_labelled hb r)

theorem registerAll_types (b : Builder) (rs : List Registration) :
    (b.registerAll rs).2.types = b.types ++ (b.attempts rs).filterMap (·.accepted?) := by
  induction rs generalizing b with
  | nil => simp [registerAll, attempts]
  | cons r rs ih =>
    rw [registerAll_cons, ih, register_types, attempts_cons, List.append_assoc, List.filterMap_cons]
    cases (Attempt.mk r (b.register r).1).accepted? <;> rfl

/-- A case label outlasts the entry that declared it. -/
theorem mem_remaining_of_owner (hchecks : e.checks = []) {d : Entry}
    (howner : e.owner = some d.name) (he : e ∈ b.entries) (hd : d ∈ b.remaining i) :
    e ∈ b.remaining i := by
  induction i with
  | zero => exact he
  | succ i ih =>
    obtain ⟨hd, -⟩ := mem_remaining_succ.1 hd
    refine mem_remaining_succ.2 ⟨ih hd, Entry.stays_iff.2 ⟨?_, ?_⟩⟩
    · rw [hchecks]
      intro check hcheck
      cases hcheck
    · intro owner h
      rw [howner] at h
      cases h
      exact ⟨d, hd, rfl⟩

/-- A case label never reports. -/
theorem not_reports_of_checks (hchecks : e.checks = []) : ¬ b.Reports i e := by
  rintro ⟨-, hreport⟩
  rw [Entry.report, Entry.failures, hchecks] at hreport
  simp at hreport

/-- **A case label is dropped just if the entry that declared it is dropped.** -/
theorem label_dropped_iff (hb : b.Distinct) (hchecks : e.checks = []) {d : Entry}
    (howner : e.owner = some d.name) (he : e ∈ b.entries) (hd : d ∈ b.entries) :
    e ∉ b.kept ↔ d ∉ b.kept := by
  refine not_congr ⟨fun hmem => ?_, fun hmem => ?_⟩
  · obtain ⟨-, hkept⟩ := settle_consistent b.parent (Nat.le_refl _) e hmem
    obtain ⟨f, hf, hname⟩ := hkept d.name howner
    rwa [← hb.eq_of_name ((settle_sublist _ _ _).subset hf) hd hname]
  · rw [kept_eq] at hmem ⊢
    exact mem_remaining_of_owner hchecks howner he hmem

theorem name_mem_build_iff (hb : b.Distinct) (he : e ∈ b.entries) :
    e.name ∈ b.build.value.names ↔ e ∈ b.kept := by
  have hnames : b.build.value.names = b.kept.map (·.name) := by
    rw [Catalog.names, build_catalog]
    exact List.map_map
  rw [hnames]
  refine ⟨fun h => ?_, List.mem_map_of_mem⟩
  obtain ⟨f, hf, hname⟩ := List.mem_map.1 h
  rwa [← hb.eq_of_name ((settle_sublist _ _ _).subset hf) he hname]

/-- **If nothing is reported, then nothing is dropped.** -/
theorem kept_eq_entries (hb : b.Distinct) (hlabelled : b.Labelled) (h : b.deferred = []) :
    b.kept = b.entries := by
  have htype {d : Entry} (hd : d ∈ b.entries) (howner : d.owner = none) : d ∈ b.kept := by
    by_contra hmem
    obtain ⟨i, -, hreports⟩ := (dropped_iff hd howner).1 hmem
    exact hreports.deferred_ne_nil h
  have hall : b.entries ⊆ b.kept := by
    intro e he
    cases howner : e.owner with
    | none => exact htype he howner
    | some owner =>
      obtain ⟨hchecks, d, hd, rfl, hnone⟩ := hlabelled e he owner howner
      by_contra hmem
      exact (label_dropped_iff hb hchecks howner he hd).1 hmem (htype hd hnone)
  exact (settle_sublist _ _ _).eq_of_length_le (hb.nodup.of_map.subperm hall).length_le

/-! ## Nothing is lost silently -/

/-- The builder gives account of all that was attempted. -/
structure Accounts (b : Builder) (inherited : List TypeError) (attempts : List Attempt) :
    Prop where
  /-- The errors of the parent, of the failed attempts and of the rounds. -/
  errors : b.build.errors = inherited ++ attempts.filterMap (·.error?)
    ++ (List.range b.entries.length).flatMap fun i => reportAll b.parent (b.remaining i)
  /-- What was accepted was entered, in the order of the attempts. -/
  types : b.types = attempts.filterMap (·.accepted?)
  missing : ∀ e ∈ b.entries, e.owner = none →
    (e.name ∉ b.build.value.names ↔ ∃ i < b.entries.length, b.Reports i e)
  once : ∀ e i j, b.Reports i e → b.Reports j e → i = j ∧ i < b.entries.length
  /-- A case label is missing with the entry that declared it, and never reports. -/
  labels : ∀ e ∈ b.entries, ∀ owner, e.owner = some owner → (∀ i, ¬ b.Reports i e) ∧
    ∃ d ∈ b.entries, d.name = owner ∧ d.owner = none ∧
      (e.name ∉ b.build.value.names ↔ d.name ∉ b.build.value.names)
  order : b.build.value.entries.Sublist (b.entries.map fun e => (e.name, e.ty))
  /-- Without an error of its own, the builder has accepted and kept everything. -/
  complete : b.build.errors = inherited → (∀ a ∈ attempts, a.error? = none) ∧
    b.build.value.entries = b.entries.map fun e => (e.name, e.ty)

theorem accounts_of_errors (hb : b.Distinct) (hlabelled : b.Labelled)
    {inherited : List TypeError} {attempts : List Attempt}
    (herrors : b.build.errors = inherited ++ attempts.filterMap (·.error?) ++ b.deferred)
    (htypes : b.types = attempts.filterMap (·.accepted?)) : b.Accounts inherited attempts where
  errors := by rw [herrors, deferred_eq]
  types := htypes
  missing e he howner := by rw [name_mem_build_iff hb he, dropped_iff he howner]
  once _ _ _ hi hj := ⟨hi.unique hj, hi.lt_length⟩
  labels e he owner howner := by
    obtain ⟨hchecks, d, hd, rfl, hnone⟩ := hlabelled e he owner howner
    refine ⟨fun _ => not_reports_of_checks hchecks, d, hd, rfl, hnone, ?_⟩
    rw [name_mem_build_iff hb he, name_mem_build_iff hb hd]
    exact label_dropped_iff hb hchecks howner he hd
  order := (settle_sublist _ _ _).map _
  complete h := by
    rw [herrors, List.append_assoc, List.append_right_eq_self, List.append_eq_nil_iff] at h
    obtain ⟨hfailed, hdeferred⟩ := h
    refine ⟨List.filterMap_eq_nil_iff.1 hfailed, ?_⟩
    rw [← kept_eq_entries hb hlabelled hdeferred]
    rfl

theorem start_labelled (parent : Option Built) : (start parent).Labelled := by
  intro e he
  rw [start_entries] at he
  cases he

theorem start_errors (parent : Option Built) :
    (start parent).inherited ++ (start parent).errors = (parent.map (·.errors)).getD [] := by
  cases parent <;> simp [start, new, withParent]

theorem registering_types (parent : Option Built) (rs : List Registration) :
    (registering parent rs).types = ((start parent).attempts rs).filterMap Attempt.accepted? :=
  (registerAll_types (start parent) rs).trans (by rw [types, start_entries]; rfl)

end Builder

/-- **No type is lost silently.** Whatever is registered over a parent, with whatever checks, the
builder gives account of it. -/
theorem no_type_lost_silently (parent : Option Built) {rs : List Registration}
    (hrs : ∀ r ∈ rs, r.Lawful) :
    (Builder.registering parent rs).Accounts ((parent.map (·.errors)).getD [])
      ((Builder.start parent).attempts rs) := by
  have hdistinct := Builder.distinct_of_entries_eq_nil (Builder.start_entries parent)
  have herrors := Builder.registerAll_build_errors (Builder.start parent) rs
  rw [Builder.start_errors] at herrors
  exact Builder.accounts_of_errors (Builder.registerAll_distinct hdistinct hrs)
    (Builder.registerAll_labelled (Builder.start_labelled parent) rs) herrors
    (Builder.registering_types parent rs)

/-- A name that is no type name is declared in the parent. -/
def careless : Built :=
  (Builder.declaring none [.concrete "Int", .concrete "int"]).build

/-- Declarations over the careless parent. The ghost needs a type that there is not, and goes first.
With it goes who wanted no ghost, because the ghost is still there when that is checked. Then the
house is empty and goes, and then its door. -/
def haunted : List Declaration :=
  [.union "House" [⟨"Door", [.reference "Ghost"]⟩],
    .concrete "Int",
    .type "Ghost" ∅ [] (.reference "Nowhere"),
    .type "Sceptic" ∅ [] (.require "Ghost" false .alreadyRegistered .concrete),
    .union "Street" [⟨"Corner", [.reference "Int"]⟩]]

theorem haunted_facts :
    (Builder.registering (some careless) (haunted.map Declaration.registration)).build.value.names
        = ["Street", "Corner"] ∧
      (Builder.registering (some careless) (haunted.map Declaration.registration)).build.errors.map
          (fun e => (e.code, e.arguments))
        = [(.typeNameCase, [("name", "int")]), (.alreadyRegistered, [("type", "Int")]),
          (.typeNotFound, [("type", "Nowhere")]), (.alreadyRegistered, [("type", "Ghost")]),
          (.typeNotFound, [("type", "Ghost")])] := by
  decide +kernel

theorem no_type_lost_silently_haunted :
    (∀ r ∈ haunted.map Declaration.registration, r.Lawful) ∧
      (Builder.registering (some careless) (haunted.map Declaration.registration)).build.value.names
        = ["Street", "Corner"] ∧
      (Builder.registering (some careless) (haunted.map Declaration.registration)).build.errors.map
          (fun e => (e.code, e.arguments))
        = [(.typeNameCase, [("name", "int")]), (.alreadyRegistered, [("type", "Int")]),
          (.typeNotFound, [("type", "Nowhere")]), (.alreadyRegistered, [("type", "Ghost")]),
          (.typeNotFound, [("type", "Ghost")])] ∧
      (Builder.registering (some careless) (haunted.map Declaration.registration)).Accounts
        careless.errors
        ((Builder.start (some careless)).attempts (haunted.map Declaration.registration)) := by
  have hlawful := lawful_registrations haunted
  exact ⟨hlawful, haunted_facts.1, haunted_facts.2, no_type_lost_silently (some careless) hlawful⟩

end TypeEngine
