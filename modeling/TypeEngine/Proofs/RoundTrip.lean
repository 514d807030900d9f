import TypeEngine.Proofs.Documents

/-!
# Types survive their JSON form

What is written for a type is read back as that type, attributes included (`Ty.ofJson?_toJson`). The
proof goes up from the small values to the types. A reader of a type is given by the reader of its
children, so the round trip of the children makes that of the type (`Ty.readable_of_children`), for
all amounts of fuel from some number on. That the size of the document is enough fuel is known from
the comparison of readers.

A set of attributes has one written form. Whatever lists were read, the lists that are written have
each attribute once and in order (`Ty.orderly_toJson`).
-/

namespace TypeEngine

open Std

variable {α : Type}

/-! ## Tables -/

theorem insertBy_eq_append {cmp : α → α → Ordering} [OrientedCmp cmp] {a : α} {l : List α}
    (h : ∀ b ∈ l, cmp b a = .lt) : insertBy cmp a l = l ++ [a] := by
  induction l with
  | nil => rfl
  | cons b l ih =>
    have hgt : cmp a b = .gt := OrientedCmp.gt_of_lt (h b (by simp))
    rw [insertBy, hgt, List.cons_append, ← ih fun c hc => h c (by simp [hc])]

theorem insertAllBy_eq_append {cmp : α → α → Ordering} [OrientedCmp cmp] {l m : List α}
    (h : Increasing cmp (l ++ m)) : insertAllBy cmp l m = l ++ m := by
  induction m generalizing l with
  | nil => simp [insertAllBy]
  | cons a m ih =>
    have hlast : ∀ b ∈ l, cmp b a = .lt := fun b hb =>
      (List.pairwise_append.1 h).2.2 b hb a (by simp)
    rw [insertAllBy, insertBy_eq_append hlast, ih (by simpa using h), List.append_assoc]
    rfl

theorem Table.ofList_entries (t : Table α) : Table.ofList t.entries = t := by
  obtain ⟨entries, hincreasing⟩ := t
  simp only [Table.ofList, insertAllBy_eq_append (l := []) hincreasing, List.nil_append]

/-! ## Small values -/

theorem mapM_map_eq_some {β : Type} {f : α → β} {g : β → Option α} {l : List α}
    (h : ∀ a ∈ l, g (f a) = some a) : (l.map f).mapM g = some l := by
  induction l with
  | nil => rfl
  | cons a l ih =>
    rw [List.map_cons, List.mapM_cons, h a (by simp), ih fun b hb => h b (by simp [hb])]
    rfl

theorem Numeric.ofJson?_toJson (kind : Numeric) : Numeric.ofJson? kind.toJson = some kind := by
  cases kind <;> rfl

theorem Origin.ofJson?_toJson (origin : Origin) : Origin.ofJson? origin.toJson = some origin := by
  cases origin <;> rfl

theorem Scope.ofJson?_toJson (scope : Scope) : Scope.ofJson? scope.toJson = some scope := by
  cases scope <;> rfl

theorem Table.ofJson?_toJson (t : Table String) : Table.ofJson? t.toJson = some t := by
  have hpairs : (t.entries.map fun p => (p.1, Json.str p.2)).mapM
      (fun p => p.2.str?.bind fun text => some (p.1, text)) = some t.entries :=
    mapM_map_eq_some fun _ _ => rfl
  have hread : Table.ofJson? t.toJson
      = (some t.entries).bind fun pairs => some (Table.ofList pairs) :=
    congrArg (Option.bind · fun pairs => some (Table.ofList pairs)) hpairs
  rw [hread, Option.bind_some, Table.ofList_entries]

theorem Attribute.ofJson?_toJson (a : Attribute) : Attribute.ofJson? a.toJson = some a := by
  cases a with
  | name names =>
    show (Table.ofJson? names.toJson).bind (fun t => some (Attribute.name t)) = _
    rw [Table.ofJson?_toJson]
    rfl
  | _ => rfl

theorem Attributes.ofJson?_list (l : List Attribute) :
    Attributes.ofJson? (.arr (l.map Attribute.toJson)) = some (.ofList l) := by
  show ((l.map Attribute.toJson).mapM Attribute.ofJson?).bind
    (fun members => some (Attributes.ofList members)) = _
  rw [mapM_map_eq_some fun a _ => a.ofJson?_toJson]
  rfl

theorem Attributes.ofList_toList (s : Attributes) : Attributes.ofList s.toList = s :=
  Attributes.ext fun _ => Attributes.mem_ofList

@[simp] theorem Attributes.ofJson?_toJson (s : Attributes) :
    Attributes.ofJson? s.toJson = some s := by
  rw [Attributes.toJson, Attributes.ofJson?_list, Attributes.ofList_toList]

theorem Directive.ofJson?_toJson (d : Directive) : Directive.ofJson? d.toJson = some d := by
  have hpair (p : String × String) : pairOfJson? (pairToJson p) = some p := rfl
  show ((d.arguments.map pairToJson).mapM pairOfJson?).bind
    (fun arguments => some (Directive.mk d.name arguments)) = _
  rw [mapM_map_eq_some fun p _ => hpair p]
  rfl

/-! ## Types -/

theorem jsonCases_eq (cs : List Case) :
    jsonCases cs = cs.map fun c =>
      .obj [("label", .str c.label), ("params", .arr (c.params.map Ty.toJson))] := by
  induction cs with
  | nil => rfl
  | cons c cs ih => rw [jsonCases, ih, jsonAll_eq]; rfl

theorem jsonMethods_eq (ms : List Method) : jsonMethods ms = ms.map jsonMethod := by
  induction ms with
  | nil => rfl
  | cons m ms ih => rw [jsonMethods, ih]; rfl

namespace Json

variable {go : Json → Option Ty}

theorem case?_toJson {c : Case} (h : ∀ t ∈ c.params, go t.toJson = some t) :
    (Json.obj [("label", .str c.label), ("params", .arr (c.params.map Ty.toJson))]).case? go
      = some c := by
  show ((c.params.map Ty.toJson).mapM go).bind (fun params => some (CaseOf.mk c.label params)) = _
  rw [mapM_map_eq_some h]
  rfl

theorem method?_toJson {m : Method} (h : ∀ t ∈ m.arguments, go t.toJson = some t) :
    (jsonMethod m).method? go = some m := by
  rw [jsonMethod, jsonAll_eq]
  show ((m.arguments.map Ty.toJson).mapM go).bind (fun arguments =>
    (Attributes.ofJson? m.attributes.toJson).bind fun attributes =>
      some (MethodOf.mk m.traitName m.name arguments m.hasDefault attributes)) = _
  rw [mapM_map_eq_some h, Attributes.ofJson?_toJson]
  rfl

theorem trait?_toJson {t : Trait} (h : ∀ m ∈ t.methods, ∀ u ∈ m.arguments, go u.toJson = some u) :
    (jsonTrait t).trait? go = some t := by
  rw [jsonTrait, jsonMethods_eq]
  show ((t.methods.map jsonMethod).mapM (method? go)).bind (fun methods =>
    (Attributes.ofJson? t.attributes.toJson).bind fun attributes =>
      some (TraitOf.mk t.name t.param methods attributes)) = _
  rw [mapM_map_eq_some fun m hm => method?_toJson (h m hm), Attributes.ofJson?_toJson]
  rfl

end Json

/-- The JSON form of a type is read back by all readers that have enough fuel. -/
def Ty.Readable (t : Ty) : Prop :=
  ∃ n, ∀ m, n ≤ m → t.toJson.tyWithin m = some t

namespace Ty

/-- A type can be read back if its children can be. -/
theorem readable_of_children {t : Ty} {tag : String} {content : Json} (children : List Ty)
    (htag : t.toJson = .tagged tag content) (hchildren : ∀ c ∈ children, c.Readable)
    (h : ∀ go : Json → Option Ty, (∀ c ∈ children, go c.toJson = some c) →
      content.content? go tag = some t) : t.Readable := by
  obtain ⟨n, hn⟩ := exists_bound hchildren
  refine ⟨n + 1, fun m hm => ?_⟩
  obtain ⟨m, rfl⟩ : ∃ k, m = k + 1 := ⟨m - 1, by omega⟩
  rw [htag, Json.tyWithin_tagged]
  exact h _ (hn m (by omega))

theorem readable (t : Ty) : t.Readable := by
  induction t with
  | parameter name origin =>
    refine readable_of_children [] (by rw [toJson]) (by simp) fun go _ => ?_
    show (Origin.ofJson? origin.toJson).bind (fun o => some (Ty.parameter name o)) = _
    rw [Origin.ofJson?_toJson]
    rfl
  | concrete name attributes =>
    refine readable_of_children [] (by rw [toJson]) (by simp) fun go _ => ?_
    show (Attributes.ofJson? attributes.toJson).bind (fun a => some (Ty.concrete name a)) = _
    rw [Attributes.ofJson?_toJson]
    rfl
  | reference name => exact readable_of_children [] (by rw [toJson]) (by simp) fun _ _ => rfl
  | typeAlias name attributes =>
    refine readable_of_children [] (by rw [toJson]) (by simp) fun go _ => ?_
    show (Attributes.ofJson? attributes.toJson).bind (fun a => some (Ty.typeAlias name a)) = _
    rw [Attributes.ofJson?_toJson]
    rfl
  | parametric head params attributes ihhead ihparams =>
    refine readable_of_children (head :: params) (by rw [toJson, jsonAll_eq])
      (List.forall_mem_cons.2 ⟨ihhead, ihparams⟩) fun go hgo => ?_
    obtain ⟨hhead, hparams⟩ := List.forall_mem_cons.1 hgo
    show (go head.toJson).bind (fun h => ((params.map toJson).mapM go).bind fun ps =>
      (Attributes.ofJson? attributes.toJson).bind fun a => some (Ty.parametric h ps a)) = _
    rw [hhead, mapM_map_eq_some hparams, Attributes.ofJson?_toJson]
    rfl
  | function arguments scope attributes ih =>
    refine readable_of_children arguments (by rw [toJson, jsonAll_eq]) ih fun go hgo => ?_
    show ((arguments.map toJson).mapM go).bind (fun ts => (Scope.ofJson? scope.toJson).bind fun s =>
      (Attributes.ofJson? attributes.toJson).bind fun a => some (Ty.function ts s a)) = _
    rw [mapM_map_eq_some hgo, Scope.ofJson?_toJson, Attributes.ofJson?_toJson]
    rfl
  | tuple elements attributes ih =>
    refine readable_of_children elements (by rw [toJson, jsonAll_eq]) ih fun go hgo => ?_
    show ((elements.map toJson).mapM go).bind (fun ts =>
      (Attributes.ofJson? attributes.toJson).bind fun a => some (Ty.tuple ts a)) = _
    rw [mapM_map_eq_some hgo, Attributes.ofJson?_toJson]
    rfl
  | union cases attributes ih =>
    refine readable_of_children (cases.flatMap (·.params)) (by rw [toJson, jsonCases_eq])
      (List.forall_mem_flatMap.2 ih) fun go hgo => ?_
    have hparams := List.forall_mem_flatMap.1 hgo
    show (List.mapM (Json.case? go) _).bind (fun cs =>
      (Attributes.ofJson? attributes.toJson).bind fun a => some (Ty.union cs a)) = _
    rw [mapM_map_eq_some fun c hc => Json.case?_toJson (hparams c hc), Attributes.ofJson?_toJson]
    rfl
  | intersection params attributes ih =>
    refine readable_of_children params (by rw [toJson, jsonAll_eq]) ih fun go hgo => ?_
    show ((params.map toJson).mapM go).bind (fun ts =>
      (Attributes.ofJson? attributes.toJson).bind fun a => some (Ty.intersection ts a)) = _
    rw [mapM_map_eq_some hgo, Attributes.ofJson?_toJson]
    rfl
  | trait trait ih =>
    refine readable_of_children (trait.methods.flatMap (·.arguments)) (by rw [toJson])
      (List.forall_mem_flatMap.2 ih) fun go hgo => ?_
    show ((jsonTrait trait).trait? go).bind (fun t => some (Ty.trait t)) = _
    rw [Json.trait?_toJson (List.forall_mem_flatMap.1 hgo)]
    rfl
  | method method ih =>
    refine readable_of_children method.arguments (by rw [toJson]) ih fun go hgo => ?_
    show ((jsonMethod method).method? go).bind (fun m => some (Ty.method m)) = _
    rw [Json.method?_toJson hgo]
    rfl
  | impl trait implementation ihtrait ih =>
    refine readable_of_children (implementation :: trait.methods.flatMap (·.arguments))
      (by rw [toJson]) (List.forall_mem_cons.2 ⟨ih, List.forall_mem_flatMap.2 ihtrait⟩)
      fun go hgo => ?_
    obtain ⟨himpl, htrait⟩ := List.forall_mem_cons.1 hgo
    show ((jsonTrait trait).trait? go).bind (fun t =>
      (go implementation.toJson).bind fun i => some (Ty.impl t i)) = _
    rw [Json.trait?_toJson (List.forall_mem_flatMap.1 htrait), himpl]
    rfl
  | fixedTrait trait ih =>
    refine readable_of_children (trait.methods.flatMap (·.arguments)) (by rw [toJson])
      (List.forall_mem_flatMap.2 ih) fun go hgo => ?_
    show ((jsonTrait trait).trait? go).bind (fun t => some (Ty.fixedTrait t)) = _
    rw [Json.trait?_toJson (List.forall_mem_flatMap.1 hgo)]
    rfl
  | constructor label union attributes =>
    refine readable_of_children [] (by rw [toJson]) (by simp) fun go _ => ?_
    show (Attributes.ofJson? attributes.toJson).bind
      (fun a => some (Ty.constructor label union a)) = _
    rw [Attributes.ofJson?_toJson]
    rfl
  | labeled label ty ih =>
    refine readable_of_children [ty] (by rw [toJson]) (List.forall_mem_singleton.2 ih)
      fun go hgo => ?_
    show (go ty.toJson).bind (fun t => some (Ty.labeled label t)) = _
    rw [List.forall_mem_singleton.1 hgo]
    rfl
  | annotated directives ty ih =>
    refine readable_of_children [ty] (by rw [toJson]) (List.forall_mem_singleton.2 ih)
      fun go hgo => ?_
    show ((directives.map Directive.toJson).mapM Directive.ofJson?).bind (fun ds =>
      (go ty.toJson).bind fun t => some (Ty.annotated ds t)) = _
    rw [mapM_map_eq_some fun d _ => d.ofJson?_toJson, List.forall_mem_singleton.1 hgo]
    rfl
  | numeric kind attributes =>
    refine readable_of_children [] (by rw [toJson]) (by simp) fun go _ => ?_
    show (Numeric.ofJson? kind.toJson).bind (fun k =>
      (Attributes.ofJson? attributes.toJson).bind fun a => some (Ty.numeric k a)) = _
    rw [Numeric.ofJson?_toJson, Attributes.ofJson?_toJson]
    rfl

/-- **A type is read back from its JSON form.** -/
theorem ofJson?_toJson (t : Ty) : Ty.ofJson? t.toJson = some t := by
  obtain ⟨n, hn⟩ := t.readable
  have henough : t.toJson.size ≤ max n t.toJson.size := by omega
  rw [ofJson?, Json.tyWithin_relisted (.same t.toJson) (Nat.le_refl _) henough]
  exact hn _ (by omega)

end Ty

/-! ## The lists of a written document -/

namespace Json

/-- The array stands in an attribute field of the document. -/
inductive ListsAttributes : Json → List Json → Prop
  | here {fields : List (String × Json)} {vs : List Json} : ("attributes", .arr vs) ∈ fields →
      ListsAttributes (.obj fields) vs
  | element {values : List Json} {v : Json} {vs : List Json} : v ∈ values →
      ListsAttributes v vs → ListsAttributes (.arr values) vs
  | field {fields : List (String × Json)} {p : String × Json} {vs : List Json} : p ∈ fields →
      ListsAttributes p.2 vs → ListsAttributes (.obj fields) vs

/-- The attribute fields of the document list each attribute once, in order. -/
def Orderly (v : Json) : Prop :=
  ∀ vs, v.ListsAttributes vs → ∃ l, vs = l.map Attribute.toJson ∧ Increasing Attribute.cmp l

@[simp] theorem orderly_str (text : String) : Orderly (.str text) := by
  intro vs h
  cases h

@[simp] theorem orderly_bool (b : Bool) : Orderly (.bool b) := by
  intro vs h
  cases h

theorem orderly_arr {values : List Json} (h : ∀ v ∈ values, Orderly v) : Orderly (.arr values) := by
  intro vs hlists
  cases hlists with
  | element hmem hlists => exact h _ hmem vs hlists

/-- An object without attributes of its own. -/
theorem orderly_obj {fields : List (String × Json)} (hkey : ∀ vs, ("attributes", .arr vs) ∉ fields)
    (h : ∀ p ∈ fields, Orderly p.2) : Orderly (.obj fields) := by
  intro vs hlists
  cases hlists with
  | here hmem => exact absurd hmem (hkey vs)
  | field hmem hlists => exact h _ hmem vs hlists

theorem orderly_tagged {tag : String} {content : Json} (htag : tag ≠ "attributes")
    (h : Orderly content) : Orderly (.tagged tag content) :=
  orderly_obj (fun _ hmem => htag (congrArg Prod.fst (List.mem_singleton.1 hmem)).symm)
    (List.forall_mem_singleton.2 h)

end Json

open Json

theorem Table.orderly_toJson (t : Table String) : t.toJson.Orderly := by
  refine orderly_obj (fun vs hmem => ?_) fun p hmem => ?_
  · obtain ⟨_, _, h⟩ := List.mem_map.1 hmem
    cases congrArg Prod.snd h
  · obtain ⟨_, _, rfl⟩ := List.mem_map.1 hmem
    exact orderly_str _

theorem Attribute.orderly_toJson (a : Attribute) : a.toJson.Orderly := by
  cases a with
  | name names => exact orderly_tagged (by decide) names.orderly_toJson
  | _ => exact orderly_str _

@[simp] theorem Attributes.orderly_toJson (s : Attributes) : s.toJson.Orderly := by
  refine orderly_arr fun v hv => ?_
  obtain ⟨a, _, rfl⟩ := List.mem_map.1 hv
  exact a.orderly_toJson

/-- An object with attributes. -/
theorem Json.orderly_with (fields : List (String × Json)) (s : Attributes)
    (hkey : ∀ vs, ("attributes", .arr vs) ∉ fields) (h : ∀ p ∈ fields, Orderly p.2) :
    Orderly (.obj (fields ++ [("attributes", s.toJson)])) := by
  intro vs hlists
  cases hlists with
  | here hmem =>
    rcases List.mem_append.1 hmem with hmem | hmem
    · exact absurd hmem (hkey vs)
    · have hvs : Json.arr vs = s.toJson := congrArg Prod.snd (List.mem_singleton.1 hmem)
      cases hvs
      exact ⟨s.toList, rfl, s.increasing⟩
  | field hmem hlists =>
    rcases List.mem_append.1 hmem with hmem | hmem
    · exact h _ hmem vs hlists
    · rw [List.mem_singleton.1 hmem] at hlists
      exact s.orderly_toJson vs hlists

theorem Directive.orderly_toJson (d : Directive) : d.toJson.Orderly := by
  have harguments : (Json.arr (d.arguments.map pairToJson)).Orderly := by
    refine orderly_arr fun v hv => ?_
    obtain ⟨p, _, rfl⟩ := List.mem_map.1 hv
    exact orderly_arr (by simp)
  exact orderly_obj (by simp) (by simp [harguments])

@[simp] theorem Origin.orderly_toJson (origin : Origin) : origin.toJson.Orderly := by
  cases origin <;> exact orderly_str _

@[simp] theorem Scope.orderly_toJson (scope : Scope) : scope.toJson.Orderly := by
  cases scope with
  | topLevel => exact orderly_str _
  | trait name => exact orderly_tagged (by decide) (orderly_str _)

theorem orderly_types {ts : List Ty} (h : ∀ t ∈ ts, t.toJson.Orderly) :
    (Json.arr (ts.map Ty.toJson)).Orderly :=
  orderly_arr (List.forall_mem_map.2 h)

theorem orderly_jsonCases {cs : List Case} (h : ∀ c ∈ cs, ∀ t ∈ c.params, t.toJson.Orderly) :
    (Json.arr (jsonCases cs)).Orderly := by
  rw [jsonCases_eq]
  refine orderly_arr (List.forall_mem_map.2 fun c hc => orderly_obj (by simp) ?_)
  simp [orderly_types (h c hc)]

theorem orderly_jsonMethod {m : Method} (h : ∀ t ∈ m.arguments, t.toJson.Orderly) :
    (jsonMethod m).Orderly := by
  rw [jsonMethod]
  exact orderly_with [("trait_name", .str m.traitName), ("name", .str m.name),
    ("arguments", .arr (jsonAll m.arguments)), ("default_impl", .bool m.hasDefault)] m.attributes
    (by simp) (by simp [orderly_types h])

theorem orderly_jsonTrait {t : Trait} (h : ∀ m ∈ t.methods, ∀ u ∈ m.arguments, u.toJson.Orderly) :
    (jsonTrait t).Orderly := by
  have hmethods : (Json.arr (jsonMethods t.methods)).Orderly := by
    rw [jsonMethods_eq]
    exact orderly_arr (List.forall_mem_map.2 fun m hm => orderly_jsonMethod (h m hm))
  rw [jsonTrait]
  exact orderly_with [("name", .str t.name), ("param", .str t.param),
    ("methods", .arr (jsonMethods t.methods))] t.attributes (by simp) (by simp [hmethods])

/-- **A written document lists each attribute once, in order.** -/
theorem Ty.orderly_toJson (t : Ty) : t.toJson.Orderly := by
  induction t with
  | parameter name origin =>
    rw [toJson]
    exact orderly_tagged (by decide) (orderly_obj (by simp) (by simp))
  | concrete name attributes =>
    rw [toJson]
    exact orderly_tagged (by decide) (orderly_with [("name", .str name)] attributes
      (by simp) (by simp))
  | reference name =>
    rw [toJson]
    exact orderly_tagged (by decide) (orderly_obj (by simp) (by simp))
  | typeAlias name attributes =>
    rw [toJson]
    exact orderly_tagged (by decide) (orderly_with [("name", .str name)] attributes
      (by simp) (by simp))
  | parametric head params attributes ihhead ihparams =>
    rw [toJson]
    exact orderly_tagged (by decide)
      (orderly_with [("head", head.toJson), ("params", .arr (jsonAll params))] attributes (by simp)
        (by simp [ihhead, orderly_types ihparams]))
  | function arguments scope attributes ih =>
    rw [toJson]
    exact orderly_tagged (by decide) (orderly_with [("arguments", .arr (jsonAll arguments)),
      ("scope", scope.toJson)] attributes (by simp) (by simp [orderly_types ih]))
  | tuple elements attributes ih =>
    rw [toJson]
    exact orderly_tagged (by decide) (orderly_with [("elements", .arr (jsonAll elements))]
      attributes (by simp) (by simp [orderly_types ih]))
  | union cases attributes ih =>
    rw [toJson]
    exact orderly_tagged (by decide) (orderly_with [("cases", .arr (jsonCases cases))]
      attributes (by simp) (by simp [orderly_jsonCases ih]))
  | intersection params attributes ih =>
    rw [toJson]
    exact orderly_tagged (by decide) (orderly_with [("params", .arr (jsonAll params))]
      attributes (by simp) (by simp [orderly_types ih]))
  | trait trait ih =>
    rw [toJson]
    exact orderly_tagged (by decide) (orderly_jsonTrait ih)
  | method method ih =>
    rw [toJson]
    exact orderly_tagged (by decide) (orderly_jsonMethod ih)
  | impl trait implementation ihtrait ih =>
    rw [toJson]
    exact orderly_tagged (by decide)
      (orderly_obj (by simp) (by simp [orderly_jsonTrait ihtrait, ih]))
  | fixedTrait trait ih =>
    rw [toJson]
    exact orderly_tagged (by decide) (orderly_jsonTrait ih)
  | constructor label union attributes =>
    rw [toJson]
    exact orderly_tagged (by decide) (orderly_with [("name", .str label), ("alias", .str union)]
      attributes (by simp) (by simp))
  | labeled label ty ih =>
    rw [toJson]
    exact orderly_tagged (by decide) (orderly_obj (by simp) (by simp [ih]))
  | annotated directives ty ih =>
    have hdirectives : (Json.arr (directives.map Directive.toJson)).Orderly :=
      orderly_arr (List.forall_mem_map.2 fun d _ => d.orderly_toJson)
    rw [toJson]
    exact orderly_tagged (by decide) (orderly_obj (by simp) (by simp [hdirectives, ih]))
  | numeric kind attributes =>
    rw [toJson]
    exact orderly_tagged (by decide) (orderly_with [("kind", kind.toJson)] attributes
      (by simp) (by simp [Numeric.toJson]))

/-- **Every type survives its JSON form.** -/
theorem types_survive_json (t : Ty) :
    Ty.ofJson? t.toJson = some t ∧
      (∀ v : Json, v.Relisted t.toJson → Ty.ofJson? v = some t) ∧
      ∀ vs, t.toJson.ListsAttributes vs →
        ∃ l, vs = l.map Attribute.toJson ∧ Increasing Attribute.cmp l := by
  refine ⟨t.ofJson?_toJson, fun v hv => ?_, t.orderly_toJson⟩
  rw [Ty.ofJson?_relisted hv, t.ofJson?_toJson]

/-- A pair of numbers with attributes, and a name for one of them in another language. -/
def pixel : Ty :=
  .labeled "pixel" (.tuple
    [.concrete "Int" (.ofList [.native, .exported, .name (.ofList [("js", "number")])]),
      .numeric .byte ∅] (.ofList [.impure]))

/-- The pixel with its attributes in another order, some of them twice. -/
def pixelForm : Json :=
  .tagged "Labeled" (.obj [("label", .str "pixel"), ("ty", .tagged "Tuple" (.obj
    [("elements", .arr
      [.tagged "Concrete" (.obj [("name", .str "Int"), ("attributes", .arr
        [.tagged "Name" (.obj [("js", .str "number")]), .str "Public", .str "Native",
          .str "Public"])]),
        .tagged "Numeric" (.obj [("kind", .str "Byte"), ("attributes", .arr [])])]),
      ("attributes", .arr [.str "Impure", .str "Impure"])]))])

theorem pixelForm_relisted : pixelForm.Relisted pixel.toJson := by
  have hnames : SameElements
      [.tagged "Name" (.obj [("js", .str "number")]), .str "Public", .str "Native", .str "Public"]
      [.str "Native", .str "Public", .tagged "Name" (.obj [("js", .str "number")])] := by
    intro v
    simp only [List.mem_cons, List.not_mem_nil, or_false]
    tauto
  have himpure : SameElements [.str "Impure", .str "Impure"] [.str "Impure"] := by
    intro v
    simp
  have hint : Relisted
      (.tagged "Concrete" (.obj [("name", .str "Int"), ("attributes", .arr
        [.tagged "Name" (.obj [("js", .str "number")]), .str "Public", .str "Native",
          .str "Public"])]))
      (.tagged "Concrete" (.obj [("name", .str "Int"), ("attributes", .arr
        [.str "Native", .str "Public", .tagged "Name" (.obj [("js", .str "number")])])])) :=
    .obj (.cons (.field (by decide)
      (.obj (.cons (.same _) (.cons (.attributes hnames) .nil)))) .nil)
  exact .obj (.cons (.field (by decide) (.obj (.cons (.same _) (.cons (.field (by decide)
    (.obj (.cons (.field (by decide) (.obj (.cons (.field (by decide)
      (.arr (.cons hint (.cons (.same _) .nil)))) (.cons (.attributes himpure) .nil)))) .nil)))
    .nil)))) .nil)

theorem types_survive_json_pixel :
    pixelForm.Relisted pixel.toJson ∧ Ty.ofJson? pixelForm = some pixel ∧
      pixel.toJson.ListsAttributes [.str "Impure"] ∧
      ∃ l, [.str "Impure"] = l.map Attribute.toJson ∧ Increasing Attribute.cmp l := by
  have hlists : pixel.toJson.ListsAttributes [.str "Impure"] :=
    .field List.mem_cons_self (.field (List.mem_cons_of_mem _ List.mem_cons_self)
      (.field List.mem_cons_self (.here (List.mem_cons_of_mem _ List.mem_cons_self))))
  obtain ⟨-, hrelisted, horderly⟩ := types_survive_json pixel
  exact ⟨pixelForm_relisted, hrelisted _ pixelForm_relisted, hlists, horderly _ hlists⟩

end TypeEngine
