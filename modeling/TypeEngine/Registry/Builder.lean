import TypeEngine.Partial
import TypeEngine.Registry.Draft

/-!
# Building a registry

A builder takes registrations one by one. A registration that fails leaves nothing behind but its
error. `Builder.build` then makes the deferred checks, on the registry that would result, and
drops the entries that fail one, together with the case labels of dropped unions. Dropping an
entry can break another one, so this goes on in rounds until a round drops nothing. Each dropped
entry reports in the one round that drops it.
-/

namespace TypeEngine

/-- A registry with the errors met while building it. -/
abbrev Built := Partial TypeError Registry

/-- A registered type with its deferred checks. A case label names the union it belongs to. -/
structure Entry where
  name : String
  ty : Ty
  checks : List Check
  owner : Option String

/-- What is in reach of entries over a parent. -/
def lookupIn (parent : Option Registry) (entries : List Entry) : Lookup := fun name =>
  match entries.find? (·.name == name) with
  | some e => some e.ty
  | none => parent.bind (·.get? name)

namespace Entry

/-- Whether the union of a case label is among `kept`; other entries belong to none. -/
def ownerKept (kept : List Entry) (e : Entry) : Bool :=
  match e.owner with
  | none => true
  | some owner => kept.any (·.name == owner)

/-- The checks that fail when just `kept` is registered. -/
def failures (parent : Option Registry) (kept : List Entry) (e : Entry) : List TypeError :=
  e.checks.filterMap (· (lookupIn parent kept))

/-- Whether an entry stays when just `kept` is registered. -/
def stays (parent : Option Registry) (kept : List Entry) (e : Entry) : Bool :=
  e.ownerKept kept && (e.failures parent kept).isEmpty

/-- What an entry reports: a case label that goes with its union reports nothing. -/
def report (parent : Option Registry) (kept : List Entry) (e : Entry) : List TypeError :=
  if e.ownerKept kept then e.failures parent kept else []

end Entry

/-- Drop entries in at most `rounds` rounds: those that remain, and the errors of the others. -/
def settle (parent : Option Registry) : (rounds : Nat) → List Entry →
    List Entry × List TypeError
  | 0, kept => (kept, [])
  | n + 1, kept =>
    let next := kept.filter (·.stays parent kept)
    if next.length = kept.length then
      (kept, [])
    else
      let (final, errors) := settle parent n next
      (final, kept.flatMap (·.report parent kept) ++ errors)

/-- What is registered: a name, attributes and directives, and the steps that make the type. -/
structure Registration where
  name : String
  attributes : Attributes
  directives : List Directive
  factory : Factory

/-- Registrations so far, over a parent whose errors are passed on. -/
structure Builder where
  parent : Option Registry
  inherited : List TypeError
  entries : List Entry
  errors : List TypeError

namespace Builder

/-- A builder without a parent. -/
def new : Builder :=
  ⟨none, [], [], []⟩

/-- A builder over a parent. -/
def withParent (parent : Built) : Builder :=
  ⟨some parent.value, parent.errors, [], []⟩

/-- What is in reach so far. -/
def lookup (b : Builder) : Lookup :=
  lookupIn b.parent b.entries

/-- The registered form of a drafted type: a reference to the name itself declares a concrete
type, and a reference to another name a second name for it. -/
def declare (name : String) (attributes : Attributes) (ty : Ty) : Ty :=
  match ty with
  | .reference target =>
    if target = name then .concrete target attributes else .typeAlias target attributes
  | ty => ty

/-- Put directives around a type, if there are any. -/
def annotate (directives : List Directive) (ty : Ty) : Ty :=
  if directives.isEmpty then ty else .annotated directives ty

/-- The type of a registration and the entries it adds. -/
def create (b : Builder) (r : Registration) : Except TypeError (Ty × List Entry) := do
  Naming.checkTypeName r.name
  if (b.lookup r.name).isSome then
    throw (.ofType .alreadyRegistered r.name)
  else
    let (drafted, draft) ← (r.factory.run ⟨r.name, r.attributes, b.lookup⟩).run ⟨[], []⟩
    let ty := annotate r.directives (declare r.name r.attributes drafted)
    return (ty, ⟨r.name, ty, draft.checks, none⟩ ::
      draft.constructors.map fun (label, constructor) => ⟨label, constructor, [], some r.name⟩)

/-- **Register a type.** A failure is returned and also kept for the end. -/
def register (b : Builder) (r : Registration) : Except TypeError Ty × Builder :=
  match b.create r with
  | .ok (ty, added) => (.ok ty, ⟨b.parent, b.inherited, b.entries ++ added, b.errors⟩)
  | .error e => (.error e, ⟨b.parent, b.inherited, b.entries, b.errors ++ [e]⟩)

/-- Make registrations in order, with the result of each. -/
def registerAll (b : Builder) : List Registration → List (Except TypeError Ty) × Builder
  | [] => ([], b)
  | r :: rs =>
    let (result, b) := b.register r
    let (results, b) := b.registerAll rs
    (result :: results, b)

/-- **The registry of all entries whose checks hold in it, and every error met.** -/
def build (b : Builder) : Built :=
  let (kept, errors) := settle b.parent b.entries.length b.entries
  ⟨.make b.parent (kept.map fun e => (e.name, e.ty)) [], b.inherited ++ b.errors ++ errors⟩

end Builder

/-- A registry without types of its own over imported modules. Of two modules with one key the
later one counts; the errors of all are passed on. -/
def Registry.ofModules (parent : Option Built) (modules : List (String × Built)) : Built :=
  ⟨.make (parent.map (·.value)) [] (modules.map fun (key, m) => (key, m.value)).reverse,
    (parent.map (·.errors)).getD [] ++ modules.flatMap (·.2.errors)⟩

end TypeEngine
