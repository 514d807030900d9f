import TypeEngine.Proofs.Cycles
import TypeEngine.Proofs.Trails
import TypeEngine.Proofs.WellFormed

/-!
# Coherent layers

The types that regular registrations keep fit the registry. So the names that they mention are
visible in the catalog that is built (`Builder.build_closed`).

A plain declaration declares a case label for each case of each union in its type, however deep the
union lies, and no other label (`Declaration.yields`). So the case labels of a builder belong to the
types that have these cases, and the other way round (`Entry.Coherent`). Building drops a type
together with its labels, and what is kept is coherent again (`Builder.kept_coherent`). In the
catalog that is built, a case label is then registered under itself, for an entry that has such a
case, and every case of an entry has its label registered, for that entry (`Catalog.Coherent`).
-/

namespace TypeEngine

/-! ## Unions inside types -/

namespace Ty

/-- `Contains ty X`: the type is `X`, or `X` stands somewhere below it. -/
inductive Contains : Ty → Ty → Prop
  | self (ty : Ty) : Contains ty ty
  | inside {ty t X : Ty} : t ∈ ty.children → Contains t X → Contains ty X

theorem Everywhere.contains {P : Ty → Prop} {ty X : Ty} (h : ty.Everywhere P)
    (hX : ty.Contains X) : P X := by
  induction hX with
  | self =>
    cases h with
    | node hat _ => exact hat
  | inside ht _ ih =>
    cases h with
    | node _ hbelow => exact ih (hbelow _ ht)

/-- A name that the type mentions stands in it. -/
theorem exists_contains_of_mentions {b : Bool} {name : String} {ty : Ty}
    (h : name ∈ ty.mentions b) : ∃ X, ty.Contains X ∧ X.lookup? = some name := by
  have hbelow {ty t : Ty} (ht : t ∈ ty.children)
      (h : ∃ X, t.Contains X ∧ X.lookup? = some name) :
      ∃ X, ty.Contains X ∧ X.lookup? = some name := by
    obtain ⟨X, hX, hname⟩ := h
    exact ⟨X, .inside ht hX, hname⟩
  induction ty with
  | reference target | typeAlias target | constructor label target =>
    rw [List.mem_singleton.1 h]
    exact ⟨_, .self _, rfl⟩
  | parametric head params attributes ihHead ih =>
    rcases List.mem_append.1 h with h | h
    · exact hbelow (List.mem_cons_self ..) (ihHead h)
    · obtain ⟨t, ht, h⟩ := mem_mentionsAll.1 h
      exact hbelow (List.mem_cons_of_mem _ ht) (ih t ht h)
  | function arguments scope attributes ih =>
    obtain ⟨t, ht, h⟩ := mem_mentionsAll.1 h
    exact hbelow ht (ih t ht h)
  | tuple elements attributes ih =>
    obtain ⟨t, ht, h⟩ := mem_mentionsAll.1 h
    exact hbelow ht (ih t ht h)
  | union cases attributes ih =>
    rw [mentions] at h
    split_ifs at h
    · obtain ⟨c, hc, t, ht, h⟩ := mem_mentionsCases.1 h
      exact hbelow (List.mem_flatMap.2 ⟨c, hc, ht⟩) (ih c hc t ht h)
    · cases h
  | impl trait implementation _ ih => exact hbelow (List.mem_cons_self ..) (ih h)
  | labeled label ty ih => exact hbelow (List.mem_singleton_self ty) (ih h)
  | annotated directives ty ih => exact hbelow (List.mem_singleton_self ty) (ih h)
  | _ => cases h

/-- The labels of the cases of a union. -/
def caseLabels : Ty → List String
  | .union cases _ => cases.map (·.label)
  | _ => []

/-- Some union in the type has a case with the label. -/
def HasCase (ty : Ty) (label : String) : Prop :=
  ∃ X, ty.Contains X ∧ label ∈ X.caseLabels

theorem hasCase_iff {ty : Ty} {label : String} :
    ty.HasCase label ↔ label ∈ ty.caseLabels ∨ ∃ t ∈ ty.children, t.HasCase label := by
  constructor
  · rintro ⟨X, hX, hlabel⟩
    cases hX with
    | self => exact .inl hlabel
    | inside ht hX => exact .inr ⟨_, ht, X, hX, hlabel⟩
  · rintro (hlabel | ⟨t, ht, X, hX, hlabel⟩)
    · exact ⟨ty, .self ty, hlabel⟩
    · exact ⟨X, .inside ht hX, hlabel⟩

theorem not_hasCase_of_leaf {ty : Ty} {label : String} (hlabels : ty.caseLabels = [])
    (hchildren : ty.children = []) : ¬ ty.HasCase label := by
  rw [hasCase_iff, hlabels, hchildren]
  simp

/-- A type that fits mentions registered names only, if no case label stands in it. -/
theorem Fits.exists_of_mentions {types : Lookup} {owner : String} {b : Bool} {ty : Ty}
    (h : ty.Fits types owner) (hfree : ty.ConstructorFree) {name : String}
    (hname : name ∈ ty.mentions b) : ∃ t, types name = some t := by
  obtain ⟨X, hX, hname⟩ := exists_contains_of_mentions hname
  have hfits := Everywhere.contains h hX
  have hconstructor := Everywhere.contains hfree hX
  cases X with
  | reference | typeAlias =>
    cases hname
    exact hfits
  | constructor => cases hconstructor
  | _ => cases hname

end Ty

/-! ## The labels of a draft -/

/-- The labels are those of the cases in the types. -/
def Declares (ts : List Ty) (labels : List String) : Prop :=
  ∀ label, label ∈ labels ↔ ∃ t ∈ ts, t.HasCase label

namespace Declares

variable {ts us : List Ty} {l m : List String} {ty : Ty}

theorem nil : Declares [] [] := by
  simp [Declares]

theorem append (hl : Declares ts l) (hm : Declares us m) : Declares (ts ++ us) (l ++ m) := by
  intro label
  rw [List.mem_append, hl, hm]
  simp only [List.mem_append, or_and_right, exists_or]

/-- A type declares the labels of its own cases beside those of the types below it. -/
theorem node (h : Declares ty.children l)
    (hm : ∀ label, label ∈ m ↔ label ∈ ty.caseLabels ∨ label ∈ l) : Declares [ty] m := by
  intro label
  rw [hm, h, ← Ty.hasCase_iff]
  simp

/-- A type that is no union declares the labels of the types below it. -/
theorem wrap (hlabels : ty.caseLabels = []) (h : Declares ty.children l) : Declares [ty] l :=
  .node h fun label => by simp [hlabels]

theorem leaf (hlabels : ty.caseLabels = []) (hchildren : ty.children = []) : Declares [ty] [] :=
  .wrap hlabels (hchildren ▸ .nil)

/-- Registering a type under its name leaves its cases as they are. -/
theorem declared {name : String} {attributes : Attributes} {directives : List Directive}
    (h : Declares [ty] l) :
    Declares [Builder.annotate directives (Builder.declare name attributes ty)] l := by
  have hdeclare : Declares [Builder.declare name attributes ty] l := by
    cases ty with
    | reference target =>
      have hnil : l = [] := List.eq_nil_iff_forall_not_mem.2 fun label hlabel => by
        obtain ⟨t, ht, hcase⟩ := (h label).1 hlabel
        rw [List.mem_singleton.1 ht] at hcase
        exact Ty.not_hasCase_of_leaf rfl rfl hcase
      rw [hnil, Builder.declare]
      split_ifs
      · exact .leaf rfl rfl
      · exact .leaf rfl rfl
    | _ => exact h
  rw [Builder.annotate]
  split_ifs
  · exact hdeclare
  · exact .wrap rfl hdeclare

end Declares

namespace Drafting

/-- The labels that a step of a draft declares satisfy `post`, together with its result. -/
def Yields {α : Type} (item : Item) (x : Drafting α) (post : α → List String → Prop) : Prop :=
  ∀ d : Draft, Ensures item d x fun a d' => ∃ added, d'.labels = d.labels ++ added ∧ post a added

section

variable {α β : Type} {item : Item} {P : α → List String → Prop} {Q : β → List String → Prop}

theorem Yields.bind {x : Drafting α} {f : α → Drafting β} (hx : Yields item x P)
    (hf : ∀ a, Yields item (f a) fun b added => ∀ before, P a before → Q b (before ++ added)) :
    Yields item (x >>= f) Q := by
  refine fun d => (hx d).bind ?_
  rintro a d₁ ⟨added₁, hlabels₁, hpost₁⟩ b d' hrun
  obtain ⟨added₂, hlabels₂, hpost₂⟩ := hf a d₁ b d' hrun
  exact ⟨added₁ ++ added₂, by rw [hlabels₂, hlabels₁, List.append_assoc], hpost₂ added₁ hpost₁⟩

theorem yields_pure {a : α} (h : P a []) : Yields item (pure a) P :=
  fun _ => ensures_pure ⟨[], (List.append_nil _).symm, h⟩

theorem yields_throw (e : TypeError) (P : α → List String → Prop) : Yields item (throw e) P :=
  fun _ => ensures_throw e _

theorem Yields.read {f : Item → Drafting β} (h : Yields item (f item) Q) :
    Yields item (MonadReader.read >>= f) Q :=
  fun d => .read (h d)

/-- Checks, at once or at the end, declare no label. -/
theorem Yields.checked {x : Except TypeError α} {f : α → Drafting β}
    (h : ∀ a, Yields item (f a) Q) : Yields item (liftM x >>= f) Q :=
  fun d => .checked fun a => h a d

theorem Yields.require {check : Check} {f : Unit → Drafting β} (h : Yields item (f ()) Q) :
    Yields item (require check >>= f) Q :=
  fun d => h ⟨d.checks ++ [check], d.constructors⟩

theorem yields_reference (name : String) :
    Yields item (reference name) fun ty added => ty = .reference name ∧ added = [] :=
  .require (yields_pure ⟨rfl, rfl⟩)

theorem yields_parametric (name : String) (params : List Ty) :
    Yields item (parametric name params) fun ty added =>
      added = [] ∧ ∀ l, Declares params l → Declares [ty] l := by
  refine .read ?_
  split
  · split
    · exact yields_throw _ _
    · refine yields_pure ⟨rfl, fun l h => .wrap rfl ?_⟩
      exact Declares.append (.leaf rfl rfl) h
  · refine (yields_reference name).bind fun head => .require (yields_pure ?_)
    rintro _ ⟨rfl, rfl⟩
    exact ⟨rfl, fun l h => .wrap rfl (Declares.append (.leaf rfl rfl) h)⟩

theorem yields_function (arguments : List Ty) :
    Yields item (function arguments) fun ty added =>
      added = [] ∧ ∀ l, Declares arguments l → Declares [ty] l := by
  refine .read ?_
  split
  · exact yields_throw _ _
  · exact yields_pure ⟨rfl, fun l h => .wrap rfl h⟩

theorem yields_declareCase (label : String) :
    Yields item (declareCase label) fun _ added => added = [label] := by
  intro d a d' hrun
  obtain ⟨-, -, -, rfl⟩ := ensures_declareCase label a d' hrun
  exact ⟨[label], by simp [Draft.labels], rfl⟩

theorem yields_traitNames (names : List String) :
    Yields item (traitNames names) Declares := by
  induction names with
  | nil => exact yields_pure .nil
  | cons name names ih =>
    refine .checked fun _ => .require (ih.bind fun ts => yields_pure fun before h => ?_)
    rw [List.append_nil]
    exact Declares.append (.leaf rfl rfl) h

theorem yields_methods {ms : List MethodDraft} (hms : ∀ m ∈ ms, Yields item m.arguments Declares)
    (declared : List Method) :
    Yields item (methods declared ms) fun r added =>
      ∃ new, r = declared ++ new ∧ Declares (new.flatMap (·.arguments)) added := by
  induction ms generalizing declared with
  | nil => exact yields_pure ⟨[], (List.append_nil _).symm, .nil⟩
  | cons m ms ih =>
    refine .read (.checked fun _ => (hms m (by simp)).bind fun arguments => ?_)
    dsimp only
    split
    · exact yields_throw _ _
    · intro d r d' hrun
      obtain ⟨added, hlabels, new, rfl, hnew⟩ := ih (fun n hn => hms n (by simp [hn])) _ d r d' hrun
      refine ⟨added, hlabels, ?_⟩
      intro before hbefore
      exact ⟨_ :: new, List.append_assoc .., hbefore.append hnew⟩

end

end Drafting

section

variable {item : Item}

mutual

theorem Expr.yields : (e : Expr) → e.isPlain = true →
    Drafting.Yields item e.draft fun ty added => Declares [ty] added
  | .concrete, _ => .read (Drafting.yields_pure (.leaf rfl rfl))
  | .reference _, _ => .require (Drafting.yields_pure (.leaf rfl rfl))
  | .parameter _, _ => .checked fun _ => Drafting.yields_pure (.leaf rfl rfl)
  | .numeric _, _ => .read (Drafting.yields_pure (.leaf rfl rfl))
  | .parametric name arguments, h => by
    refine (yields_draftAll arguments h).bind fun params d ty d' hrun => ?_
    obtain ⟨added, hlabels, rfl, hty⟩ := Drafting.yields_parametric name params d ty d' hrun
    exact ⟨[], hlabels, fun before hparams => by rw [List.append_nil]; exact hty before hparams⟩
  | .function arguments, h => by
    refine (yields_draftAll arguments h).bind fun ts d ty d' hrun => ?_
    obtain ⟨added, hlabels, rfl, hty⟩ := Drafting.yields_function ts d ty d' hrun
    exact ⟨[], hlabels, fun before hts => by rw [List.append_nil]; exact hty before hts⟩
  | .tuple arguments, h =>
    (yields_draftAll arguments h).bind fun _ => .read (Drafting.yields_pure fun before hts => by
      rw [List.append_nil]
      exact .wrap rfl hts)
  | .union cases, h =>
    (yields_draftCases cases h).bind fun _ => .read (Drafting.yields_pure fun before hcs => by
      obtain ⟨l, hl, hlabels⟩ := hcs
      rw [List.append_nil]
      exact .node hl hlabels)
  | .intersection traits, _ =>
    .read ((Drafting.yields_traitNames traits).bind fun _ =>
      Drafting.yields_pure fun before hts => by
        rw [List.append_nil]
        exact .wrap rfl hts)
  | .labeled label body, h =>
    (body.yields h).bind fun _ => Drafting.yields_pure fun before hty => by
      rw [List.append_nil]
      exact .wrap rfl hty

theorem yields_draftAll : (es : List Expr) → arePlain es = true →
    Drafting.Yields item (draftAll es) Declares
  | [], _ => Drafting.yields_pure .nil
  | e :: es, h =>
    have hplain := Bool.and_eq_true_iff.1 h
    (e.yields hplain.1).bind fun _ => (yields_draftAll es hplain.2).bind fun _ =>
      Drafting.yields_pure fun _ hts _ hty => by
        rw [List.append_nil]
        exact hty.append hts

theorem yields_draftCases : (cs : List (CaseOf Expr)) → arePlainCases cs = true →
    Drafting.Yields item (draftCases cs) fun r added =>
      ∃ l, Declares (r.flatMap (·.params)) l ∧
        ∀ label, label ∈ added ↔ label ∈ r.map (·.label) ∨ label ∈ l
  | [], _ => Drafting.yields_pure ⟨[], .nil, by simp⟩
  | ⟨label, params⟩ :: cs, h =>
    have hplain := Bool.and_eq_true_iff.1 h
    (Drafting.yields_declareCase label).bind fun _ =>
      (yields_draftAll params hplain.1).bind fun ts =>
        (yields_draftCases cs hplain.2).bind fun rest => Drafting.yields_pure <| by
          -- The labels of nested unions stand between the label and those of the other cases.
          rintro l₃ ⟨l, hl, hlabels⟩ l₂ hts _ rfl
          refine ⟨l₂ ++ l, hts.append hl, fun other => ?_⟩
          simp only [List.mem_append, List.map_cons, List.mem_cons, List.not_mem_nil, or_false,
            hlabels]
          tauto

end

/-- **A plain declaration declares the labels of the cases in its type.** -/
theorem Declaration.yields {d : Declaration} (h : d.isPlain = true) :
    Drafting.Yields item d.registration.factory fun ty added => Declares [ty] added := by
  cases d with
  | type name attributes directives body => exact body.yields h
  | trait name attributes param methods =>
    have hmethods := List.all_eq_true.1 h
    refine .read (.checked fun _ => (Drafting.yields_methods (fun m hm => ?_) []).bind fun r =>
      Drafting.yields_pure ?_)
    · obtain ⟨n, hn, rfl⟩ := List.mem_map.1 hm
      exact yields_draftAll n.arguments (hmethods n hn)
    · rintro before ⟨new, rfl, hnew⟩
      rw [List.append_nil]
      exact .wrap rfl hnew

end

/-! ## The entries of a builder -/

/-- An entry beside which the labels of its cases are entries, or a label beside the entry that has
such a case. -/
inductive Entry.Coherent (entries : List Entry) : Entry → Prop
  | type {name : String} {ty : Ty} {checks : List Check} :
      (∀ label, ty.HasCase label → ∃ attributes,
        ⟨label, .constructor label name attributes, [], some name⟩ ∈ entries) →
      Coherent entries ⟨name, ty, checks, none⟩
  | label {label owner : String} {attributes : Attributes} {ty : Ty} {checks : List Check} :
      ⟨owner, ty, checks, none⟩ ∈ entries → ty.HasCase label →
      Coherent entries ⟨label, .constructor label owner attributes, [], some owner⟩

theorem Entry.Coherent.mono {entries entries' : List Entry} (hsub : entries ⊆ entries') {e : Entry}
    (h : e.Coherent entries) : e.Coherent entries' := by
  cases h with
  | type hlabels =>
    refine .type fun label hcase => ?_
    obtain ⟨attributes, hmem⟩ := hlabels label hcase
    exact ⟨attributes, hsub hmem⟩
  | label hmem hcase => exact .label (hsub hmem) hcase

namespace Builder

/-- All entries are coherent with the others. -/
def Coherent (b : Builder) : Prop :=
  ∀ e ∈ b.entries, e.Coherent b.entries

/-- **A plain declaration keeps the entries coherent,** whether it succeeds or fails. -/
theorem register_coherent {b : Builder} (hb : b.Coherent) {r : Registration} (hr : r.Plain) :
    (b.register r).2.Coherent := by
  obtain ⟨d, hd, rfl⟩ := hr
  rw [register]
  split
  next ty added h =>
    obtain ⟨-, drafted, draft, hrun, rfl, rfl⟩ := create_eq_ok h
    have hfresh := d.lawful.fresh hrun (Draft.fresh_nil _ _)
    obtain ⟨added, hadded, hdeclares⟩ := Declaration.yields hd _ _ _ hrun
    have hlabels : draft.labels = added := hadded
    subst hlabels
    have hcases := @Declares.declared _ _ d.registration.name d.registration.attributes
      d.registration.directives hdeclares
    simp only [Declares, List.mem_singleton, exists_eq_left] at hcases
    intro e he
    rcases List.mem_append.1 he with he | he
    · exact (hb e he).mono (List.subset_append_left _ _)
    · rcases List.mem_cons.1 he with rfl | he
      · refine .type fun label hcase => ?_
        obtain ⟨p, hp, rfl⟩ := List.mem_map.1 ((hcases label).2 hcase)
        refine ⟨d.registration.attributes, List.mem_append_right _ (List.mem_cons_of_mem _ ?_)⟩
        exact List.mem_map.2 ⟨p, hp, by rw [hfresh.stands p hp]⟩
      · obtain ⟨p, hp, rfl⟩ := List.mem_map.1 he
        dsimp only
        rw [hfresh.stands p hp]
        refine .label (List.mem_append_right _ (List.mem_cons_self ..)) ?_
        exact (hcases p.1).1 (List.mem_map.2 ⟨p, hp, rfl⟩)
  next e h => exact hb

theorem registerAll_coherent {b : Builder} (hb : b.Coherent) {rs : List Registration}
    (hrs : ∀ r ∈ rs, r.Plain) : (b.registerAll rs).2.Coherent := by
  induction rs generalizing b with
  | nil => exact hb
  | cons r rs ih =>
    exact ih (register_coherent hb (hrs r (by simp))) fun q hq => hrs q (by simp [hq])

theorem registering_coherent (parent : Option Built) {rs : List Registration}
    (hrs : ∀ r ∈ rs, r.Plain) : (registering parent rs).Coherent := by
  refine registerAll_coherent ?_ hrs
  intro e he
  rw [start_entries] at he
  cases he

variable {parent : Option Built} {rs : List Registration}

/-- **What is kept is coherent again.** A type and its labels are kept together. -/
theorem kept_coherent (hrs : ∀ r ∈ rs, r.Plain) {e : Entry}
    (he : e ∈ (registering parent rs).kept) : e.Coherent (registering parent rs).kept := by
  have hregular (r : Registration) (hr : r ∈ rs) : r.Regular := (hrs r hr).regular
  have hgreatest := kept_greatest parent hregular
  have hsub := hgreatest.sublist.subset
  have hcoherent := registering_coherent parent hrs e (hsub he)
  cases hcoherent with
  | type hlabels =>
    refine .type fun label hcase => ?_
    obtain ⟨attributes, hmem⟩ := hlabels label hcase
    exact ⟨attributes, label_mem_kept hregular he hmem⟩
  | label hmem hcase =>
    obtain ⟨f, hf, hname⟩ := (hgreatest.consistent _ he).2 _ rfl
    rw [(registering_distinct parent hregular).eq_of_name (hsub hf) hmem hname] at hf
    exact .label hf hcase

end Builder

/-! ## The catalog of a builder -/

/-- The entries of a catalog mention what is visible. -/
def Catalog.Closed (C : Catalog) : Prop :=
  ∀ {name ty}, C.entries.lookup name = some ty →
    ∀ other ∈ ty.mentions true, ∃ found, C.find? other = some found

/-- The case labels of a catalog belong to its entries, and the other way round. -/
structure Catalog.Coherent (C : Catalog) : Prop where
  owner : ∀ {name label union attributes},
    C.entries.lookup name = some (.constructor label union attributes) →
    name = label ∧ ∃ ty, C.entries.lookup union = some ty ∧ ty.HasCase label
  label : ∀ {name ty label}, C.entries.lookup name = some ty → ty.HasCase label →
    ∃ attributes, C.entries.lookup label = some (.constructor label name attributes)

namespace Builder

variable {parent : Option Built} {rs : List Registration}

theorem lookup_of_mem_kept (hrs : ∀ r ∈ rs, r.Regular) {e : Entry}
    (he : e ∈ (registering parent rs).kept) :
    (registering parent rs).build.value.entries.lookup e.name = some e.ty := by
  have hsub : (registering parent rs).kept ⊆ (registering parent rs).entries :=
    (settle_sublist ..).subset
  rw [build_catalog, lookup_map_entries]
  cases hf : (registering parent rs).kept.find? (·.name == e.name) with
  | none => simpa using List.find?_eq_none.1 hf e he
  | some f =>
    have hname : f.name = e.name := by simpa using List.find?_some hf
    rw [(registering_distinct parent hrs).eq_of_name (hsub (List.mem_of_find?_eq_some hf)) (hsub he)
      hname]
    rfl

theorem exists_mem_kept {name : String} {ty : Ty}
    (h : (registering parent rs).build.value.entries.lookup name = some ty) :
    ∃ e ∈ (registering parent rs).kept, e.name = name ∧ e.ty = ty := by
  rw [build_catalog] at h
  obtain ⟨e, he, heq⟩ := List.mem_map.1 (Catalog.mem_of_lookup h)
  cases heq
  exact ⟨e, he, rfl, rfl⟩

/-- **Regular registrations build a closed catalog.** -/
theorem build_closed (hrs : ∀ r ∈ rs, r.Regular) :
    (registering parent rs).build.value.toCatalog.Closed := by
  intro name ty h other hother
  obtain ⟨e, he, -, rfl⟩ := exists_mem_kept h
  have hgreatest := kept_greatest parent hrs
  have hfits := fits_of_mem_kept hrs he
  cases registering_sound parent hrs e (hgreatest.sublist.subset he) with
  | type _ hfree =>
    obtain ⟨t, ht⟩ := hfits.exists_of_mentions hfree hother
    rw [← build_get?, Catalog.get?, Option.map_eq_some_iff] at ht
    obtain ⟨found, hfound, -⟩ := ht
    exact ⟨found, hfound⟩
  | label =>
    -- The owner of a label that is kept is kept.
    obtain ⟨f, hf, hname⟩ := (hgreatest.consistent _ he).2 _ rfl
    rw [List.mem_singleton.1 hother, ← hname]
    exact ⟨_, (Catalog.Sees.own (lookup_of_mem_kept hrs hf)).find?⟩

/-- **Plain declarations build a coherent catalog.** -/
theorem build_coherent (hrs : ∀ r ∈ rs, r.Plain) :
    (registering parent rs).build.value.toCatalog.Coherent := by
  have hregular (r : Registration) (hr : r ∈ rs) : r.Regular := (hrs r hr).regular
  refine ⟨fun {name label union attributes} h => ?_, fun {name ty label} h hcase => ?_⟩
  · obtain ⟨e, he, rfl, hty⟩ := exists_mem_kept h
    have hsound := registering_sound parent hregular e ((settle_sublist ..).subset he)
    cases kept_coherent hrs he with
    | type =>
      cases hty
      cases (hsound.constructorFree rfl).contains (.self _)
    | label hmem hcase =>
      cases hty
      exact ⟨rfl, _, lookup_of_mem_kept hregular hmem, hcase⟩
  · obtain ⟨e, he, rfl, rfl⟩ := exists_mem_kept h
    cases kept_coherent hrs he with
    | type hlabels =>
      obtain ⟨attributes, hmem⟩ := hlabels label hcase
      exact ⟨attributes, lookup_of_mem_kept hregular hmem⟩
    | label => exact absurd hcase (Ty.not_hasCase_of_leaf rfl rfl)

end Builder

end TypeEngine
